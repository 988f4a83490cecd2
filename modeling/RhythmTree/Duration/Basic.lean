/-!
# Durations

Exact amounts of musical time: rational numbers that are not negative. They measure lengths as well
as distances from the start of a piece. Sums stay exact, a share of a duration is exact, and a
difference exists only when it is not negative.
-/

namespace RhythmTree

/-- A rational amount of musical time. -/
structure Duration where
  /-- The amount. -/
  value : Rat
  /-- Time does not run backwards. -/
  nonneg : 0 ≤ value
  deriving DecidableEq

/-- A rational number in lowest terms, without the denominator when it is one. The numbers may have
any number of digits. -/
def ratText (q : Rat) : String :=
  if q.den = 1 then toString q.num else toString q.num ++ "/" ++ toString q.den

/-- A quotient of natural numbers is not negative. -/
theorem divInt_natCast_nonneg (part whole : Nat) : 0 ≤ Rat.divInt part whole := by
  cases whole with
  | zero => simp
  | succ n => exact (Rat.divInt_nonneg_iff_of_pos_right (by omega)).2 (by omega)

namespace Duration

/-- No time at all. -/
def zero : Duration := ⟨0, Rat.le_refl⟩

instance : Inhabited Duration := ⟨zero⟩

instance : Repr Duration := ⟨fun d _ => ratText d.value⟩

/-- The duration with an amount that is not negative. -/
def ofRat? (q : Rat) : Option Duration := if h : 0 ≤ q then some ⟨q, h⟩ else none

/-- A whole number of units. -/
def ofNat (n : Nat) : Duration := ⟨n, Rat.natCast_nonneg⟩

instance : Add Duration := ⟨fun a b => ⟨a.value + b.value, Rat.add_nonneg a.nonneg b.nonneg⟩⟩

instance : LE Duration := ⟨fun a b => a.value ≤ b.value⟩

instance : LT Duration := ⟨fun a b => a.value < b.value⟩

instance (a b : Duration) : Decidable (a ≤ b) := inferInstanceAs (Decidable (a.value ≤ b.value))

instance (a b : Duration) : Decidable (a < b) := inferInstanceAs (Decidable (a.value < b.value))

instance : Max Duration := ⟨fun a b => if a ≤ b then b else a⟩

instance : Min Duration := ⟨fun a b => if a ≤ b then a else b⟩

/-- The time by which one duration exceeds another. -/
def sub? (a b : Duration) : Option Duration := ofRat? (a.value - b.value)

/-- The part of a duration that `part` out of `whole` equal pieces make up. -/
def share (d : Duration) (part whole : Nat) : Duration :=
  ⟨d.value * Rat.divInt part whole, Rat.mul_nonneg d.nonneg (divInt_natCast_nonneg part whole)⟩

/-- The sum of durations. -/
def sum (ds : List Duration) : Duration := ds.foldl (· + ·) zero

/-- The amount in lowest terms, as messages and records show it. -/
def text (d : Duration) : String := ratText d.value

instance : ToString Duration := ⟨text⟩

/-- The text that shows a value to be a duration. -/
def inline (d : Duration) : String :=
  if d.value.den = 1 then "Duration(" ++ toString d.value.num ++ ")"
  else "Duration(Fraction(" ++ toString d.value.num ++ ", " ++ toString d.value.den ++ "))"

@[ext] theorem ext {a b : Duration} (h : a.value = b.value) : a = b := by
  cases a
  cases b
  cases h
  rfl

@[simp] theorem value_zero : zero.value = 0 := rfl

@[simp] theorem value_add (a b : Duration) : (a + b).value = a.value + b.value := rfl

theorem le_def {a b : Duration} : a ≤ b ↔ a.value ≤ b.value := Iff.rfl

theorem lt_def {a b : Duration} : a < b ↔ a.value < b.value := Iff.rfl

end Duration

end RhythmTree
