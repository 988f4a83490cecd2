import RhythmTree.Span

/-!
# Sums and order of durations

Durations add up like numbers that are not negative, and they are ordered like them. The shares of a
duration add up to the duration, and the latest of some points of time is the greatest of them.
-/

namespace RhythmTree

namespace Duration

variable {a b c : Duration}

@[simp] theorem add_zero (a : Duration) : a + zero = a := by
  apply Duration.ext
  rw [value_add, value_zero, Rat.add_zero]

@[simp] theorem zero_add (a : Duration) : zero + a = a := by
  apply Duration.ext
  rw [value_add, value_zero, Rat.zero_add]

theorem add_assoc (a b c : Duration) : a + b + c = a + (b + c) := by
  apply Duration.ext
  simp only [value_add, Rat.add_assoc]

theorem add_left_cancel (h : a + b = a + c) : b = c := by
  have h' := congrArg value h
  simp only [value_add] at h'
  apply Duration.ext
  grind

theorem add_right_cancel (h : a + c = b + c) : a = b := by
  have h' := congrArg value h
  simp only [value_add] at h'
  apply Duration.ext
  grind

theorem add_eq_zero_add_iff : a + c = zero + c ↔ a = zero :=
  ⟨add_right_cancel, fun h => h ▸ rfl⟩

theorem le_refl (a : Duration) : a ≤ a := Rat.le_refl

theorem le_trans (hab : a ≤ b) (hbc : b ≤ c) : a ≤ c := Rat.le_trans hab hbc

theorem le_antisymm (hab : a ≤ b) (hba : b ≤ a) : a = b := Duration.ext (Rat.le_antisymm hab hba)

theorem zero_le (a : Duration) : zero ≤ a := a.nonneg

theorem not_le : ¬ a ≤ b ↔ b < a := Rat.not_le

theorem not_lt : ¬ a < b ↔ b ≤ a := Rat.not_lt

theorem lt_irrefl (a : Duration) : ¬ a < a := not_lt.mpr (le_refl a)

theorem le_of_lt (h : a < b) : a ≤ b := Rat.le_of_lt h

theorem ne_of_lt (h : a < b) : a ≠ b := by
  rintro rfl
  exact lt_irrefl a h

theorem lt_of_le_of_lt (hab : a ≤ b) (hbc : b < c) : a < c :=
  not_le.mp fun hca => not_le.mpr hbc (le_trans hca hab)

theorem lt_of_lt_of_le (hab : a < b) (hbc : b ≤ c) : a < c :=
  not_le.mp fun hca => not_le.mpr hab (le_trans hbc hca)

theorem lt_trans (hab : a < b) (hbc : b < c) : a < c := lt_of_lt_of_le hab (le_of_lt hbc)

theorem add_le_add_left (h : b ≤ c) (a : Duration) : a + b ≤ a + c := by
  rw [le_def] at h ⊢
  simp only [value_add]
  grind

theorem add_le_add_right (h : a ≤ b) (c : Duration) : a + c ≤ b + c := by
  rw [le_def] at h ⊢
  simp only [value_add]
  grind

theorem le_of_add_le_add_right (h : a + c ≤ b + c) : a ≤ b := by
  rw [le_def] at h ⊢
  simp only [value_add] at h
  grind

/-! ### Sums -/

theorem foldl_add (ds : List Duration) (a : Duration) : ds.foldl (· + ·) a = a + sum ds := by
  induction ds generalizing a with
  | nil => exact (add_zero a).symm
  | cons d rest ih =>
    rw [sum, List.foldl_cons, List.foldl_cons, ih, ih, zero_add, add_assoc]

@[simp] theorem sum_cons (d : Duration) (ds : List Duration) : sum (d :: ds) = d + sum ds := by
  rw [sum, List.foldl_cons, foldl_add, zero_add]

theorem sum_append (ds es : List Duration) : sum (ds ++ es) = sum ds + sum es := by
  rw [sum, List.foldl_append, foldl_add]
  rfl

/-! ### The earliest and the latest of some points of time -/

theorem max_le (ha : a ≤ c) (hb : b ≤ c) : max a b ≤ c := by
  show (if a ≤ b then b else a) ≤ c
  split
  · exact hb
  · exact ha

theorem le_max_left (a b : Duration) : a ≤ max a b := by
  show a ≤ if a ≤ b then b else a
  split
  · next h => exact h
  · exact le_refl a

theorem le_max_right (a b : Duration) : b ≤ max a b := by
  show b ≤ if a ≤ b then b else a
  split
  · exact le_refl b
  · next h => exact le_of_not_le h

theorem min_le_left (a b : Duration) : min a b ≤ a := by
  show (if a ≤ b then a else b) ≤ a
  split
  · exact le_refl a
  · next h => exact le_of_not_le h

theorem min_le_right (a b : Duration) : min a b ≤ b := by
  show (if a ≤ b then a else b) ≤ b
  split
  · next h => exact h
  · exact le_refl b

theorem foldl_max_le {ds : List Duration} (ha : a ≤ c) (h : ∀ d ∈ ds, d ≤ c) :
    ds.foldl max a ≤ c := by
  induction ds generalizing a with
  | nil => exact ha
  | cons d rest ih =>
    exact ih (max_le ha (h d (by simp))) fun e he => h e (by simp [he])

theorem le_foldl_max (ds : List Duration) (a : Duration) : a ≤ ds.foldl max a := by
  induction ds generalizing a with
  | nil => exact le_refl a
  | cons d rest ih => exact le_trans (le_max_left a d) (ih (max a d))

theorem mem_le_foldl_max {ds : List Duration} {d : Duration} (hd : d ∈ ds) (a : Duration) :
    d ≤ ds.foldl max a := by
  induction ds generalizing a with
  | nil => exact absurd hd (by simp)
  | cons e rest ih =>
    rcases List.mem_cons.mp hd with rfl | hd
    · exact le_trans (le_max_right a d) (le_foldl_max rest _)
    · exact ih hd _

/-! ### Shares -/

/-- Several parts together are one part. -/
theorem share_add (d : Duration) (m n whole : Nat) :
    d.share m whole + d.share n whole = d.share (m + n) whole := by
  apply Duration.ext
  simp only [value_add, share, Rat.divInt_eq_div]
  grind

@[simp] theorem share_zero (d : Duration) (whole : Nat) : d.share 0 whole = zero := by
  apply Duration.ext
  simp [share]

@[simp] theorem zero_share (part whole : Nat) : zero.share part whole = zero := by
  apply Duration.ext
  simp [share]

/-- All parts together are the whole. -/
theorem share_self (d : Duration) {whole : Nat} (h : whole ≠ 0) : d.share whole whole = d := by
  apply Duration.ext
  show d.value * Rat.divInt whole whole = d.value
  rw [Rat.divInt_self' (by omega), Rat.mul_one]

end Duration

end RhythmTree
