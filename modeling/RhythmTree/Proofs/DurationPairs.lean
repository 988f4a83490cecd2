import Mathlib.Data.Rat.Floor
import RhythmTree.Proofs.DurationTexts
import RhythmTree.Proofs.Payloads

/-!
# Durations as pairs

A stream may give a duration as a pair of a numerator and a denominator. A pair of whole numbers
stands for their quotient. Of a floating point item only the whole part counts. The quotient of the
whole parts need not be that of the items, which are not refused for it.

* `ofPair_eq_ok_iff`: a pair is read if its items stand for whole numbers and the quotient exists.
* `truncate?_eq`: a floating point value without its fraction is its whole part.
* `reads_wholeParts`: **which pairs of numbers give the quotient of the numbers themselves.**
-/

namespace RhythmTree.Duration

open Decimal (Binary64)

section

variable {q : ℚ} {d : Duration} {x y : Document}

theorem ofRat_eq_ok_iff : ofRat q = .ok d ↔ d.value = q := by
  unfold ofRat ofRat?
  by_cases hq : 0 ≤ q
  · rw [dif_pos hq]
    constructor
    · intro h
      cases h
      rfl
    · rintro rfl
      rfl
  · rw [dif_neg hq]
    constructor
    · intro h
      cases h
    · rintro rfl
      exact absurd d.nonneg hq

/-- A pair is read if its items stand for whole numbers that have a quotient. -/
theorem ofPair_eq_ok_iff : ofPair x y = .ok d ↔
    ∃ above below, integer x = .ok above ∧ integer y = .ok below ∧ below ≠ 0 ∧
      d.value = above / below := by
  rw [ofPair_eq]
  cases hy : integer y with
  | error e => simp
  | ok below =>
    by_cases hb : below = 0
    · simp [hb]
    · cases hx : integer x with
      | error e => simp [hb]
      | ok above => simp [hb, ofRat_eq_ok_iff, Rat.divInt_eq_div]

/-! ### Pairs of numbers -/

/-- A number without its fraction. -/
def wholePart (q : ℚ) : ℤ := if 0 ≤ q then ⌊q⌋ else ⌈q⌉

theorem wholePart_intCast (n : ℤ) : wholePart n = n := by
  unfold wholePart
  split
  · exact Int.floor_intCast n
  · exact Int.ceil_intCast n

theorem wholePart_neg (q : ℚ) : wholePart (-q) = -wholePart q := by
  unfold wholePart
  rcases lt_trichotomy q 0 with hq | rfl | hq
  · rw [if_pos (by linarith), if_neg (by linarith), Int.floor_neg]
  · simp
  · rw [if_neg (by linarith), if_pos hq.le, Int.ceil_neg]

theorem wholePart_natCast_div (n m : ℕ) : wholePart (n / m) = (n / m : ℕ) := by
  rw [wholePart, if_pos (by positivity), Rat.floor_natCast_div_natCast, Int.natCast_ediv]

/-- A floating point value without its fraction is its whole part. -/
theorem truncate?_eq (v : Binary64) : v.truncate? = v.toRat?.map wholePart := by
  cases v with
  | nan => rfl
  | infinite negative => rfl
  | finite negative code =>
    have hm : wholePart (mkRat (Decimal.codeNum code) (Decimal.codeDen code)) =
        (Decimal.codeNum code / Decimal.codeDen code : ℕ) := by
      rw [Rat.mkRat_eq_div, Int.cast_natCast, wholePart_natCast_div]
    cases negative with
    | false => exact congrArg some hm.symm
    | true => exact congrArg some ((wholePart_neg _).trans (congrArg Neg.neg hm)).symm

/-- The number that a whole or a floating point number is exactly. -/
def number? : Document → Option ℚ
  | .int n => some n
  | .float v => v.toRat?
  | _ => none

/-- A whole number or a floating point value, which may be infinite or not a number. -/
def IsNumeric : Document → Prop
  | .int _ | .float _ => True
  | _ => False

theorem integer_eq_ok_iff (hx : IsNumeric x) {n : ℤ} :
    integer x = .ok n ↔ (number? x).map wholePart = some n := by
  cases x with
  | int m =>
    show Except.ok m = Except.ok n ↔ some (wholePart m) = some n
    rw [wholePart_intCast, Except.ok.injEq, Option.some.injEq]
  | float v =>
    show integer (.float v) = .ok n ↔ v.toRat?.map wholePart = some n
    rw [← truncate?_eq]
    cases v with
    | nan => simp [integer, Binary64.truncate?]
    | infinite negative => simp [integer, Binary64.truncate?]
    | finite negative code => simp [integer, Binary64.truncate?]
  | _ => cases hx

theorem ofDocument_numeric_eq_ok_iff (hx : IsNumeric x) (hy : IsNumeric y) :
    ofDocument (.list [x, y]) = .ok d ↔
      ∃ p q, number? x = some p ∧ number? y = some q ∧ wholePart q ≠ 0 ∧
        d.value = wholePart p / wholePart q := by
  show ofPair x y = .ok d ↔ _
  rw [ofPair_eq_ok_iff]
  constructor
  · rintro ⟨above, below, ha, hb, hne, hd⟩
    obtain ⟨p, hp, rfl⟩ := Option.map_eq_some_iff.mp ((integer_eq_ok_iff hx).mp ha)
    obtain ⟨q, hq, rfl⟩ := Option.map_eq_some_iff.mp ((integer_eq_ok_iff hy).mp hb)
    exact ⟨p, q, hp, hq, hne, hd⟩
  · rintro ⟨p, q, hp, hq, hne, hd⟩
    refine ⟨wholePart p, wholePart q, ?_, ?_, hne, hd⟩
    · rw [integer_eq_ok_iff hx, hp, Option.map_some]
    · rw [integer_eq_ok_iff hy, hq, Option.map_some]

/-- A pair gives no duration but the quotient of its items, taken exactly. -/
def IsExact (x y : Document) : Prop :=
  ∀ d, ofDocument (.list [x, y]) = .ok d →
    ∃ p q, number? x = some p ∧ number? y = some q ∧ q ≠ 0 ∧ d.value = p / q

theorem ne_zero_of_wholePart_ne_zero (h : wholePart q ≠ 0) : q ≠ 0 := by
  rintro rfl
  exact h rfl

theorem isExact_iff (hx : IsNumeric x) (hy : IsNumeric y) :
    IsExact x y ↔ ∀ p q, number? x = some p → number? y = some q → wholePart q ≠ 0 →
      0 ≤ (wholePart p / wholePart q : ℚ) → wholePart p * q = p * wholePart q := by
  constructor
  · intro h p q hp hq hne hpos
    obtain ⟨p', q', hp', hq', hq0, hd⟩ :=
      h ⟨_, hpos⟩ ((ofDocument_numeric_eq_ok_iff hx hy).mpr ⟨p, q, hp, hq, hne, rfl⟩)
    obtain rfl := Option.some.inj (hp.symm.trans hp')
    obtain rfl := Option.some.inj (hq.symm.trans hq')
    exact (div_eq_div_iff (Int.cast_ne_zero.mpr hne) hq0).mp hd
  · intro h d hd
    obtain ⟨p, q, hp, hq, hne, hd⟩ := (ofDocument_numeric_eq_ok_iff hx hy).mp hd
    have hq0 : q ≠ 0 := ne_zero_of_wholePart_ne_zero hne
    refine ⟨p, q, hp, hq, hq0, hd.trans ?_⟩
    exact (div_eq_div_iff (Int.cast_ne_zero.mpr hne) hq0).mpr (h p q hp hq hne (hd ▸ d.nonneg))

/-- Whole numbers lose nothing. -/
theorem isExact_int (n m : ℤ) : IsExact (.int n) (.int m) := by
  have hn : IsNumeric (.int n) := trivial
  have hm : IsNumeric (.int m) := trivial
  rw [isExact_iff hn hm]
  intro p q hp hq _ _
  cases hp
  cases hq
  rw [wholePart_intCast, wholePart_intCast]

/-- **A pair of numbers is read as the quotient of their whole parts.** It gives nothing but the
quotient of the numbers themselves exactly if that is the same one or there is no duration. -/
theorem reads_wholeParts (hx : IsNumeric x) (hy : IsNumeric y) :
    (∀ d, ofDocument (.list [x, y]) = .ok d ↔
      ∃ p q, number? x = some p ∧ number? y = some q ∧ wholePart q ≠ 0 ∧
        d.value = wholePart p / wholePart q) ∧
      (IsExact x y ↔ ∀ p q, number? x = some p → number? y = some q → wholePart q ≠ 0 →
        0 ≤ (wholePart p / wholePart q : ℚ) → wholePart p * q = p * wholePart q) :=
  ⟨fun _ => ofDocument_numeric_eq_ok_iff hx hy, isExact_iff hx hy⟩

/-- One and a half. -/
def threeHalves : Document := .float (.ofRatio false 3 2)

theorem number?_threeHalves : number? threeHalves = some (3 / 2) := by decide +kernel

theorem wholePart_threeHalves : wholePart (3 / 2) = 1 := by norm_num [wholePart]

theorem ofDocument_threeHalves :
    ofDocument (.list [threeHalves, .int 1]) = .ok ⟨1, zero_le_one⟩ := by
  have hx : IsNumeric threeHalves := trivial
  have hy : IsNumeric (.int 1) := trivial
  have hone : wholePart ((1 : ℤ) : ℚ) = 1 := wholePart_intCast 1
  rw [ofDocument_numeric_eq_ok_iff hx hy]
  refine ⟨3 / 2, (1 : ℤ), number?_threeHalves, rfl, by rw [hone]; decide, ?_⟩
  rw [wholePart_threeHalves, hone]
  norm_num

theorem reads_wholeParts_threeHalves :
    ofDocument (.list [threeHalves, .int 1]) = .ok ⟨1, zero_le_one⟩ ∧
      ¬ IsExact threeHalves (.int 1) := by
  refine ⟨ofDocument_threeHalves, fun h => ?_⟩
  obtain ⟨-, hexact⟩ := reads_wholeParts (x := threeHalves) (y := .int 1) trivial trivial
  have hone : wholePart ((1 : ℤ) : ℚ) = 1 := wholePart_intCast 1
  have hcross := hexact.mp h (3 / 2) (1 : ℤ) number?_threeHalves rfl
  rw [wholePart_threeHalves, hone] at hcross
  norm_num at hcross

/-- **Not all pairs of numbers are exact**: one and a half over one gives one. -/
theorem not_forall_isExact : ¬ ∀ x y, IsNumeric x → IsNumeric y → IsExact x y := by
  intro h
  obtain ⟨p, q, hp, hq, -, hd⟩ :=
    h threeHalves (.int 1) trivial trivial _ ofDocument_threeHalves
  obtain rfl := Option.some.inj (number?_threeHalves.symm.trans hp)
  cases hq
  norm_num at hd

end

end RhythmTree.Duration
