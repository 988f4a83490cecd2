import Mathlib.Data.List.Basic
import Mathlib.Data.List.DropRight
import Mathlib.Data.Nat.Digits.Defs
import RhythmTree.Text.Numeral

/-!
# Written numbers

Numbers are written in ASCII digits, and every reader takes a run of such digits for the number that
was written, whatever else it accepts.

* `plainDigits?_of_isDigit`, `groupedDigits?_of_isDigit`: a run of digits is read digit by digit.
* `ofDigits_toDigits`: **the digits of a number denote the number.**
* `splitAtFirst_append`: a text is cut at its first mark.
* `isBlank_of_digitValue?`, `trim_append`: no digit is blank, and what stands between blanks is
  what is left without them.
-/

namespace RhythmTree.Text

/-! ### Digits -/

/-- The values of ASCII digits. -/
def asciiValues (cs : List Char) : List Nat := cs.map fun c => c.toNat - 48

theorem isDigit_iff {c : Char} : c.isDigit = true ↔ 48 ≤ c.toNat ∧ c.toNat ≤ 57 := by
  simp only [Char.isDigit, Bool.and_eq_true, decide_eq_true_eq, ge_iff_le]
  exact Iff.rfl

theorem asciiDigit?_of_isDigit {c : Char} (h : c.isDigit = true) :
    asciiDigit? c = some (c.toNat - 48) := if_pos h

theorem digitValue?_of_isDigit {c : Char} (h : c.isDigit = true) :
    digitValue? c = some (c.toNat - 48) := by
  have hc := isDigit_iff.mp h
  rw [digitValue?, if_pos (by omega), if_pos h]

theorem plainDigits?_of_isDigit {cs : List Char} (hne : cs ≠ []) (h : ∀ c ∈ cs, c.isDigit = true) :
    plainDigits? asciiDigit? cs = some (asciiValues cs) := by
  induction cs with
  | nil => exact absurd rfl hne
  | cons c cs ih =>
    have hc := asciiDigit?_of_isDigit (h c List.mem_cons_self)
    cases cs with
    | nil =>
      rw [plainDigits?, hc]
      rfl
    | cons d cs =>
      have hr := ih (List.cons_ne_nil _ _) fun e he => h e (List.mem_cons_of_mem c he)
      rw [plainDigits?, hc]
      · dsimp only
        rw [hr]
        rfl
      · exact List.cons_ne_nil d cs

theorem groupedDigits?_of_isDigit {cs : List Char} (hne : cs ≠ [])
    (h : ∀ c ∈ cs, c.isDigit = true) :
    groupedDigits? digitValue? cs = some (asciiValues cs) := by
  induction cs with
  | nil => exact absurd rfl hne
  | cons c cs ih =>
    have hc := digitValue?_of_isDigit (h c List.mem_cons_self)
    cases cs with
    | nil =>
      rw [groupedDigits?, hc]
      rfl
    | cons d cs =>
      have hd : d.isDigit = true := h d (List.mem_cons_of_mem c List.mem_cons_self)
      have hr := ih (List.cons_ne_nil _ _) fun e he => h e (List.mem_cons_of_mem c he)
      have hu : d ≠ '_' := by
        rintro rfl
        exact absurd hd (by decide)
      rw [groupedDigits?, hc]
      dsimp only
      split
      · next hz => exact absurd hz (List.cons_ne_nil _ _)
      · next rest hz => exact absurd (List.cons.inj hz).1 hu
      · next e rest _ hz =>
        rw [← hz, hr]
        rfl

theorem ofDigits_eq_foldl (ns : List Nat) (n : Nat) :
    ns.foldl (fun total digit => 10 * total + digit) n = 10 ^ ns.length * n + ofDigits ns := by
  induction ns generalizing n with
  | nil => simp
  | cons m ns ih =>
    rw [ofDigits, List.foldl_cons, List.foldl_cons, ih, ih (10 * 0 + m), List.length_cons]
    ring

theorem ofDigits_append (ms ns : List Nat) :
    ofDigits (ms ++ ns) = 10 ^ ns.length * ofDigits ms + ofDigits ns := by
  rw [ofDigits, List.foldl_append, ofDigits_eq_foldl]
  rfl

theorem ofDigits_asciiValues (cs : List Char) :
    ofDigits (asciiValues cs) = Nat.ofDigitChars 10 cs 0 := by
  rw [ofDigits, asciiValues, List.foldl_map, Nat.ofDigitChars_eq_foldl]
  rfl

theorem asciiValues_append (cs ds : List Char) :
    asciiValues (cs ++ ds) = asciiValues cs ++ asciiValues ds := List.map_append

theorem length_asciiValues (cs : List Char) : (asciiValues cs).length = cs.length :=
  List.length_map _

theorem ofDigits_zeros (t : Nat) : ofDigits (asciiValues (List.replicate t '0')) = 0 := by
  induction t with
  | zero => rfl
  | succ t ih =>
    rw [List.replicate_succ, ← List.singleton_append, asciiValues_append, ofDigits_append, ih]
    rfl

/-- Zeros in front do not count. -/
theorem ofDigits_zeros_append (t : Nat) (cs : List Char) :
    ofDigits (asciiValues (List.replicate t '0' ++ cs)) = ofDigits (asciiValues cs) := by
  rw [asciiValues_append, ofDigits_append, ofDigits_zeros, Nat.mul_zero, Nat.zero_add]

/-- Zeros at the end multiply by a power of ten. -/
theorem ofDigits_append_zeros (cs : List Char) (t : Nat) :
    ofDigits (asciiValues (cs ++ List.replicate t '0')) = 10 ^ t * ofDigits (asciiValues cs) := by
  rw [asciiValues_append, ofDigits_append, ofDigits_zeros, length_asciiValues,
    List.length_replicate, Nat.add_zero]

/-- **The digits of a number denote the number.** -/
theorem ofDigits_toDigits (n : Nat) : ofDigits (asciiValues (Nat.toDigits 10 n)) = n := by
  rw [ofDigits_asciiValues, Nat.ofDigitChars_ten_toDigits]

theorem isDigit_of_mem_toDigits {n : Nat} {c : Char} (h : c ∈ Nat.toDigits 10 n) :
    c.isDigit = true :=
  Nat.isDigit_of_mem_toDigits (by decide) (by decide) h

theorem head?_toDigits_ne_zero {n : Nat} (h : 0 < n) : (Nat.toDigits 10 n).head? ≠ some '0' := by
  induction n using Nat.strongRecOn with
  | ind n ih =>
    rw [Nat.toDigits_eq_if (by decide)]
    split
    · next hn =>
      have hdigit : ∀ m < 10, 0 < m → Nat.digitChar m ≠ '0' := by decide
      rw [List.head?_cons]
      exact fun e => hdigit n hn h (Option.some.inj e)
    · next hn =>
      rw [List.head?_append_of_ne_nil _ Nat.toDigits_ne_nil]
      exact ih (n / 10) (by omega) (by omega)

theorem signed_natAbs (m : Int) : signed (decide (m < 0)) m.natAbs = m := by
  unfold signed
  split
  · next h =>
    have := of_decide_eq_true h
    omega
  · next h =>
    have := of_decide_eq_false (Bool.eq_false_iff.mpr h)
    omega

/-! ### Marks -/

section

variable {α : Type} {mark : α → Bool}

theorem splitAtFirst_of_all {cs : List α} (h : ∀ c ∈ cs, mark c = false) :
    splitAtFirst mark cs = (cs, none) := by
  induction cs with
  | nil => rfl
  | cons c cs ih =>
    rw [splitAtFirst, if_neg (by simp [h c List.mem_cons_self]),
      ih fun d hd => h d (List.mem_cons_of_mem c hd)]

theorem exists_of_splitAtFirst {cs front back : List α}
    (h : splitAtFirst mark cs = (front, some back)) :
    ∃ m, mark m = true ∧ cs = front ++ m :: back := by
  induction cs generalizing front with
  | nil => cases h
  | cons c rest ih =>
    rw [splitAtFirst] at h
    by_cases hc : mark c = true
    · rw [if_pos hc] at h
      cases h
      exact ⟨c, hc, rfl⟩
    · rw [if_neg hc] at h
      cases hr : splitAtFirst mark rest with
      | mk before after =>
        rw [hr] at h
        cases h
        obtain ⟨m, hm, rfl⟩ := ih hr
        exact ⟨m, hm, rfl⟩

theorem eq_of_splitAtFirst_none {cs front : List α} (h : splitAtFirst mark cs = (front, none)) :
    cs = front := by
  induction cs generalizing front with
  | nil => cases h; rfl
  | cons c rest ih =>
    rw [splitAtFirst] at h
    by_cases hc : mark c = true
    · rw [if_pos hc] at h
      cases h
    · rw [if_neg hc] at h
      cases hr : splitAtFirst mark rest with
      | mk before after =>
        rw [hr] at h
        cases h
        rw [ih hr]

theorem splitAtFirst_append {cs : List α} (h : ∀ c ∈ cs, mark c = false) {m : α}
    (hm : mark m = true) (rest : List α) :
    splitAtFirst mark (cs ++ m :: rest) = (cs, some rest) := by
  induction cs with
  | nil => rw [List.nil_append, splitAtFirst, if_pos hm]
  | cons c cs ih =>
    rw [List.cons_append, splitAtFirst, if_neg (by simp [h c List.mem_cons_self]),
      ih fun d hd => h d (List.mem_cons_of_mem c hd)]

end

theorem splitSign_of_isDigit {c : Char} (h : c.isDigit = true) (cs : List Char) :
    splitSign (c :: cs) = (false, c :: cs) := by
  unfold splitSign
  split
  · next hz =>
    rw [(List.cons.inj hz).1] at h
    exact absurd h (by decide)
  · next hz =>
    rw [(List.cons.inj hz).1] at h
    exact absurd h (by decide)
  · rfl

/-! ### Blanks -/

theorem exists_of_digitValue? {c : Char} {n : Nat} (h : digitValue? c = some n) :
    ∃ start ∈ digitZeros, start ≤ c.toNat ∧ c.toNat ≤ start + 9 := by
  unfold digitValue? at h
  split at h
  · split at h
    · next hc => exact ⟨0x30, List.mem_cons_self, isDigit_iff.mp hc⟩
    · cases h
  · obtain ⟨start, hs, -⟩ := Option.map_eq_some_iff.mp h
    exact ⟨start, List.mem_of_find?_eq_some hs, by simpa using List.find?_some hs⟩

/-- The digits of every script lie between blanks. -/
theorem apart_of_mem_digitZeros : ∀ start ∈ digitZeros,
    start = 0x30 ∨ (0xA0 < start ∧ start + 9 < 0x1680) ∨
      (0x1680 < start ∧ start + 9 < 0x2000) ∨ 0x3000 < start := by
  decide

theorem isBlank_of_digitValue? {c : Char} {n : Nat} (h : digitValue? c = some n) :
    isBlank c = false := by
  obtain ⟨start, hs, hc⟩ := exists_of_digitValue? h
  have hapart := apart_of_mem_digitZeros start hs
  simp only [isBlank, isSpace, Bool.or_eq_false_iff, Bool.and_eq_false_imp, decide_eq_false_iff_not,
    decide_eq_true_eq, beq_eq_false_iff_ne]
  omega

theorem isBlank_of_isDigit {c : Char} (h : c.isDigit = true) : isBlank c = false :=
  isBlank_of_digitValue? (digitValue?_of_isDigit h)

/-- Trimming takes away what is to be dropped around a text that has nothing of the kind. -/
theorem trim_append {drop : Char → Bool} {before cs after : List Char}
    (hb : ∀ c ∈ before, drop c = true) (h : ∀ c ∈ cs, drop c = false)
    (ha : ∀ c ∈ after, drop c = true) : trim drop (before ++ (cs ++ after)) = cs := by
  have hstop : ∀ ds rest : List Char, ds ≠ [] → (∀ c ∈ ds, drop c = false) →
      (ds ++ rest).dropWhile drop = ds ++ rest := by
    intro ds rest hne hd
    cases ds with
    | nil => exact absurd rfl hne
    | cons c ds =>
      rw [List.cons_append, List.dropWhile_cons, if_neg (by simp [hd c List.mem_cons_self])]
  rw [trim, List.dropWhile_append_of_pos hb]
  by_cases hne : cs = []
  · rw [hne, List.nil_append, List.dropWhile_eq_nil_iff.mpr ha]
    rfl
  · rw [hstop cs after hne h, List.reverse_append,
      List.dropWhile_append_of_pos fun c hc => ha c (List.mem_reverse.mp hc)]
    have hr := hstop cs.reverse [] (by simpa using hne) fun c hc => h c (List.mem_reverse.mp hc)
    rw [List.append_nil] at hr
    rw [hr, List.reverse_reverse]

theorem trim_of_all {drop : Char → Bool} {cs : List Char} (h : ∀ c ∈ cs, drop c = false) :
    trim drop cs = cs := by
  have ht : trim drop ([] ++ (cs ++ [])) = cs := trim_append (by simp) h (by simp)
  rwa [List.nil_append, List.append_nil] at ht

theorem exists_eq_append_trim (drop : Char → Bool) (cs : List Char) :
    ∃ before after, cs = before ++ (trim drop cs ++ after) ∧
      ∀ c ∈ before ++ after, drop c = true := by
  refine ⟨cs.takeWhile drop, (cs.dropWhile drop).rtakeWhile drop, ?_, ?_⟩
  · show cs = _ ++ ((cs.dropWhile drop).rdropWhile drop ++ _)
    rw [List.rdropWhile_append_rtakeWhile, List.takeWhile_append_dropWhile]
  · intro c hc
    rcases List.mem_append.mp hc with hc | hc
    · exact List.mem_takeWhile_imp hc
    · exact List.mem_rtakeWhile_imp hc

end RhythmTree.Text
