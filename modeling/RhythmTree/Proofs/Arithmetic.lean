import Mathlib.Data.Fin.Tuple.Sort
import RhythmTree.Duration.Operand
import RhythmTree.Proofs.DurationPairs
import RhythmTree.Proofs.Durations

/-!
# Arithmetic with durations

An operator on durations gives the rational number that it gives on their amounts, as long as this
number is not negative. Below zero there is an error, and dividing by zero is an error of its own. A
duration without time may be multiplied by a negative number, for the product is not negative.

* `Operand.IsInt`, `Operand.IsNumber`, `Operand.Denotes`: the operands that stand for a number.
* `Operand.exact_eq_ok_iff`: **a duration is made of what denotes its amount.**
* `Operand.sub_eq_ok_iff`, `Operand.mul_eq_ok_iff`, `Operand.div_eq_ok_iff`: **differences, products
  and quotients are exact.**
* `Operand.fails_sub`, `Operand.fails_mul`, `Operand.fails_div`: **when they fail, and how.**
* `Operand.exists_sub_add`, `Operand.exists_div_mul`: differences and quotients can be taken back.
* `Operand.add_mono`, `Operand.mul_mono`: sums and products keep the order.
* `Operand.sorted_eq_ok_iff`: **there is one way to sort durations.**
-/

namespace RhythmTree

open Decimal (Binary64)

/-- What comes of two steps in a row. -/
theorem bind_eq_ok_iff {ε α β : Type} {x : Except ε α} {f : α → Except ε β} {y : β} :
    x >>= f = .ok y ↔ ∃ z, x = .ok z ∧ f z = .ok y := by
  constructor
  · intro h
    cases x with
    | error e => cases h
    | ok z => exact ⟨z, rfl, h⟩
  · rintro ⟨z, rfl, h⟩
    exact h

/-! ### Texts -/

namespace Text

theorem ratOfText_eq_ok_iff {t : Text} {q : ℚ} : Duration.ratOfText t = .ok q ↔ t.Denotes q := by
  rw [denotes_iff, Duration.ratOfText]
  cases t.chars? with
  | none => simp
  | some chars =>
    simp only [Option.map_some, Option.some.injEq, exists_eq_left', writes_iff]
    cases Duration.Ratio.ofText? (trim isBlank chars) with
    | none => cases Duration.letterFraction? (trim isBlank chars) <;> simp
    | some ratio => cases hv : ratio.value? <;> simp [hv]

end Text

namespace Duration

variable {α : Type} {q : ℚ} {a b d : Duration} {k : Error.Category}

instance : Coe Duration Operand := ⟨.duration⟩

theorem le_total (a b : Duration) : a ≤ b ∨ b ≤ a := Rat.le_total

/-- An operation ends with an error of a category. -/
def Fails (r : Except Error α) (k : Error.Category) : Prop := ∃ e, r = .error e ∧ e.category = k

@[simp] theorem not_fails_ok (x : α) : ¬ Fails (.ok x) k := by
  rintro ⟨e, he, -⟩
  cases he

@[simp] theorem fails_error {e : Error} : Fails (.error e : Except Error α) k ↔ k = e.category := by
  constructor
  · rintro ⟨_, he, hk⟩
    cases he
    exact hk.symm
  · rintro rfl
    exact ⟨e, rfl, rfl⟩

theorem fails_ofRat : Fails (ofRat q) k ↔ k = .value ∧ q < 0 := by
  unfold ofRat ofRat?
  by_cases hq : 0 ≤ q
  · simp [hq]
  · simp [hq, Rat.not_le.mp hq, Error.category]

namespace Operand

variable {x y : Operand} {n : ℤ}

/-! ### Operands that stand for a number -/

/-- The whole numbers among operands. Truth values count as one and zero. -/
inductive IsInt : Operand → ℤ → Prop
  | int (n : ℤ) : IsInt (.plain (.int n)) n
  | truth (b : Bool) : IsInt (.plain (.bool b)) (if b then 1 else 0)

/-- The whole numbers and the ratios among operands. -/
inductive IsNumber : Operand → ℚ → Prop
  | int {x : Operand} {n : ℤ} : IsInt x n → IsNumber x n
  | ratio (q : ℚ) : IsNumber (.ratio q) q

/-- The operands that stand for a rational number: numbers, finite floating point values, and texts
in the notation of rational numbers. -/
inductive Denotes : Operand → ℚ → Prop
  | number {x : Operand} {q : ℚ} : IsNumber x q → Denotes x q
  | float {v : Binary64} {q : ℚ} : v.toRat? = some q → Denotes (.plain (.float v)) q
  | text {t : Text} {q : ℚ} : t.Denotes q → Denotes (.plain (.text t)) q

theorem integer?_eq_some_iff : x.integer? = some n ↔ x.IsInt n := by
  constructor
  · intro h
    unfold integer? at h
    split at h
    · cases h
      exact .int _
    · cases h
      exact .truth _
    · cases h
  · intro h
    cases h with
    | int n => rfl
    | truth b => rfl

theorem factor?_eq_some_iff : x.factor? = some q ↔ x.IsNumber q := by
  constructor
  · intro h
    unfold factor? at h
    split at h
    · cases h
      exact .ratio _
    · obtain ⟨n, hn, rfl⟩ := Option.map_eq_some_iff.mp h
      exact .int (integer?_eq_some_iff.mp hn)
  · intro h
    cases h with
    | ratio q => rfl
    | int hn =>
      cases hn with
      | int n => rfl
      | truth b => rfl

theorem IsInt.unique {m : ℤ} (h : x.IsInt m) (h' : x.IsInt n) : m = n :=
  Option.some.inj ((integer?_eq_some_iff.mpr h).symm.trans (integer?_eq_some_iff.mpr h'))

theorem IsNumber.unique {p : ℚ} (h : x.IsNumber p) (h' : x.IsNumber q) : p = q :=
  Option.some.inj ((factor?_eq_some_iff.mpr h).symm.trans (factor?_eq_some_iff.mpr h'))

theorem exactRat_eq_ok_iff {raw : Document} :
    exactRat raw = .ok q ↔ (Operand.plain raw).Denotes q := by
  constructor
  · intro h
    cases raw with
    | bool b => cases b <;> cases h <;> exact .number (.int (.truth _))
    | int n =>
      cases h
      exact .number (.int (.int n))
    | float v =>
      cases v with
      | finite negative code =>
        cases h
        exact .float rfl
      | _ => cases h
    | text t => exact .text (Text.ratOfText_eq_ok_iff.mp h)
    | _ => cases h
  · intro h
    cases h with
    | number h =>
      cases h with
      | int hn =>
        cases hn with
        | int n => rfl
        | truth b => cases b <;> rfl
    | @float v q hv =>
      cases v with
      | finite negative code =>
        cases hv
        rfl
      | _ => cases hv
    | text ht => exact Text.ratOfText_eq_ok_iff.mpr ht

theorem denotes_ratio_iff {p : ℚ} : (Operand.ratio p).Denotes q ↔ q = p := by
  constructor
  · intro h
    cases h with
    | number h =>
      cases h with
      | ratio => rfl
      | int h => cases h
  · rintro rfl
    exact .number (.ratio q)

/-- A duration is no number itself. -/
theorem not_denotes_duration : ¬ (Operand.duration d).Denotes q := by
  intro h
  cases h with
  | number h =>
    cases h with
    | int h => cases h

/-- No operand denotes two numbers. -/
theorem Denotes.unique {p : ℚ} (h : x.Denotes p) (h' : x.Denotes q) : p = q := by
  cases x with
  | duration e => exact absurd h not_denotes_duration
  | ratio r => rw [denotes_ratio_iff.mp h, denotes_ratio_iff.mp h']
  | plain raw =>
    exact Except.ok.inj ((exactRat_eq_ok_iff.mpr h).symm.trans (exactRat_eq_ok_iff.mpr h'))

/-- **A duration is made of what denotes its amount.** -/
theorem exact_eq_ok_iff : x.exact = .ok d ↔ x.Denotes d.value := by
  cases x with
  | duration e => simp [exact, not_denotes_duration]
  | ratio q => rw [exact, ofRat_eq_ok_iff, denotes_ratio_iff]
  | plain raw =>
    rw [← exactRat_eq_ok_iff, exact, ofExact, bind_eq_ok_iff]
    simp [ofRat_eq_ok_iff]

/-! ### Operators -/

/-- **A difference is exact.** -/
theorem sub_eq_ok_iff : sub a b = .ok d ↔ d.value = a.value - b.value := by
  rw [sub, sub?, ← ofRat_eq_ok_iff, ofRat]
  cases ofRat? (a.value - b.value) <;> simp

/-- **A difference fails exactly if it is below zero.** -/
theorem fails_sub : Fails (sub a b) k ↔ k = .value ∧ a < b := by
  rw [lt_def, ← sub_neg, ← fails_ofRat, sub, sub?, ofRat]
  cases ofRat? (a.value - b.value) <;> simp [Error.category]

/-- A number multiplies a duration from either side. -/
theorem mul_of_isNumber (h : x.IsNumber q) (a : Duration) :
    mul a x = ofRat (a.value * q) ∧ mul x a = ofRat (a.value * q) := by
  obtain ((_ | _) | _) := h <;> exact ⟨rfl, rfl⟩

theorem mul_ne_ok (h : x.factor? = none) : mul a x ≠ .ok d ∧ mul x a ≠ .ok d := by
  have ha : (duration a).factor? = none := rfl
  constructor <;> simp [mul, ha, h]

theorem mul_left_eq_ok_iff : mul x a = .ok d ↔ mul a x = .ok d := by
  cases hx : x.factor? with
  | none => exact iff_of_false (mul_ne_ok hx).2 (mul_ne_ok hx).1
  | some q =>
    obtain ⟨hright, hleft⟩ := mul_of_isNumber (factor?_eq_some_iff.mp hx) a
    rw [hright, hleft]

/-- **A product is exact.** -/
theorem mul_eq_ok_iff : mul a x = .ok d ↔ ∃ q, x.IsNumber q ∧ d.value = a.value * q := by
  constructor
  · intro h
    cases hx : x.factor? with
    | none => exact absurd h (mul_ne_ok hx).1
    | some q =>
      have hq := factor?_eq_some_iff.mp hx
      rw [(mul_of_isNumber hq a).1, ofRat_eq_ok_iff] at h
      exact ⟨q, hq, h⟩
  · rintro ⟨q, hq, h⟩
    rw [(mul_of_isNumber hq a).1, ofRat_eq_ok_iff]
    exact h

theorem value_mul_neg_iff : a.value * q < 0 ↔ q < 0 ∧ a ≠ zero := by
  have ha : a ≠ zero ↔ 0 < a.value := by
    rw [a.nonneg.lt_iff_ne]
    exact not_congr ⟨fun h => congrArg value h ▸ rfl, fun h => ext h.symm⟩
  rw [ha, mul_neg_iff]
  have := a.nonneg
  grind

/-- **A product fails exactly if a negative number multiplies some time.** -/
theorem fails_mul (h : x.IsNumber q) : Fails (mul a x) k ↔ k = .value ∧ q < 0 ∧ a ≠ zero := by
  rw [(mul_of_isNumber h a).1, fails_ofRat, value_mul_neg_iff]

theorem div_of_isInt (h : x.IsInt n) (a : Duration) :
    div a x = if n = 0 then .error (.zeroDenominator (if a.value = 0 then 0 else 1))
      else ofRat (a.value / n) := by
  obtain (_ | _) := h <;> rfl

/-- **A quotient is exact.** -/
theorem div_eq_ok_iff : div a x = .ok d ↔ ∃ n, x.IsInt n ∧ n ≠ 0 ∧ d.value = a.value / n := by
  constructor
  · intro h
    cases hx : x.integer? with
    | none => simp [div, hx] at h
    | some n =>
      have hn := integer?_eq_some_iff.mp hx
      rw [div_of_isInt hn] at h
      split at h
      · cases h
      · next hne => exact ⟨n, hn, hne, ofRat_eq_ok_iff.mp h⟩
  · rintro ⟨n, hn, hne, h⟩
    rw [div_of_isInt hn, if_neg hne, ofRat_eq_ok_iff]
    exact h

/-- **A quotient fails exactly if the divisor is zero, or negative and divides some time.** -/
theorem fails_div (h : x.IsInt n) : Fails (div a x) k ↔
    k = .zeroDivision ∧ n = 0 ∨ k = .value ∧ n < 0 ∧ a ≠ zero := by
  rw [div_of_isInt h]
  by_cases hn : n = 0
  · simp [hn, Error.category]
  · rw [if_neg hn, fails_ofRat, div_eq_mul_inv, value_mul_neg_iff, inv_neg'']
    simp [hn]

/-! ### What operators take back and what they keep -/

/-- A difference can be taken back. -/
theorem exists_sub_add (h : b ≤ a) : ∃ d, sub a b = .ok d ∧ add d b = .ok a := by
  have hpos : 0 ≤ a.value - b.value := sub_nonneg.mpr h
  refine ⟨⟨a.value - b.value, hpos⟩, sub_eq_ok_iff.mpr rfl, ?_⟩
  exact congrArg Except.ok (ext (sub_add_cancel a.value b.value))

/-- A quotient can be taken back. -/
theorem exists_div_mul (h : x.IsInt n) (hn : n ≠ 0) (hpos : n < 0 → a = zero) :
    ∃ d, div a x = .ok d ∧ mul d x = .ok a := by
  have hq : 0 ≤ a.value / n := by
    rcases lt_or_gt_of_ne hn with hn | hn
    · rw [hpos hn, value_zero, zero_div]
    · exact div_nonneg a.nonneg (Int.cast_nonneg hn.le)
  refine ⟨⟨a.value / n, hq⟩, div_eq_ok_iff.mpr ⟨n, h, hn, rfl⟩, ?_⟩
  refine mul_eq_ok_iff.mpr ⟨n, .int h, ?_⟩
  exact (div_mul_cancel₀ a.value (Int.cast_ne_zero.mpr hn)).symm

/-- A sum is at least as long as one of shorter durations. -/
theorem add_mono {c : Duration} (h : a ≤ b) (h' : c ≤ d) :
    ∃ s t, add a c = .ok s ∧ add b d = .ok t ∧ s ≤ t :=
  ⟨a + c, b + d, rfl, rfl, le_trans (add_le_add_right h c) (add_le_add_left h' b)⟩

/-- A product with a number that is not negative is at least as long as one of a shorter duration
with a smaller number. -/
theorem mul_mono {p : ℚ} (hx : x.IsNumber p) (hy : y.IsNumber q) (hp : 0 ≤ p) (hpq : p ≤ q)
    (h : a ≤ b) : ∃ s t, mul a x = .ok s ∧ mul b y = .ok t ∧ s ≤ t := by
  have hle : a.value * p ≤ b.value * q := mul_le_mul h hpq hp b.nonneg
  have hpos : 0 ≤ a.value * p := mul_nonneg a.nonneg hp
  exact ⟨⟨a.value * p, hpos⟩, ⟨b.value * q, hpos.trans hle⟩, mul_eq_ok_iff.mpr ⟨p, hx, rfl⟩,
    mul_eq_ok_iff.mpr ⟨q, hy, rfl⟩, hle⟩

/-- Durations are equal if each is at most the other. -/
theorem eq_iff : eq a b = true ↔ a ≤ b ∧ b ≤ a := by
  constructor
  · intro h
    obtain rfl := of_decide_eq_true h
    exact ⟨le_refl a, le_refl a⟩
  · rintro ⟨hab, hba⟩
    exact decide_eq_true (le_antisymm hab hba)

/-! ### Many durations -/

theorem value_sum (ds : List Duration) : (Duration.sum ds).value = (ds.map value).sum := by
  induction ds with
  | nil => rfl
  | cons d ds ih => rw [sum_cons, value_add, ih, List.map_cons, List.sum_cons]

theorem sum_durations (ds : List Duration) :
    Operand.sum (ds.map .duration) = .ok (Duration.sum ds) := by
  unfold Operand.sum Duration.sum
  generalize zero = total
  induction ds generalizing total with
  | nil => rfl
  | cons d ds ih => exact ih (total + d)

theorem durations_map (ds : List Duration) : durations (ds.map .duration) = .ok ds := by
  induction ds with
  | nil => rfl
  | cons d ds ih =>
    cases ds with
    | nil => rfl
    | cons e rest =>
      show (durations ((e :: rest).map .duration)).map (d :: ·) = .ok (d :: e :: rest)
      rw [ih]
      rfl

theorem sorted_durations (ds : List Duration) :
    sorted (ds.map .duration) = .ok (ds.mergeSort fun a b => decide (a ≤ b)) := by
  rw [sorted, durations_map]
  rfl

/-- Sorting puts durations into their order. -/
theorem exists_sorted (ds : List Duration) :
    ∃ es, sorted (ds.map .duration) = .ok es ∧ es.Perm ds ∧ es.Pairwise (· ≤ ·) := by
  refine ⟨_, sorted_durations ds, List.mergeSort_perm ds _, ?_⟩
  refine (List.pairwise_mergeSort ?_ ?_ ds).imp of_decide_eq_true
  · intro a b c hab hbc
    exact decide_eq_true (le_trans (of_decide_eq_true hab) (of_decide_eq_true hbc))
  · intro a b
    simpa using le_total a b

/-- **There is one way to sort durations.** -/
theorem sorted_eq_ok_iff {ds es : List Duration} :
    sorted (ds.map .duration) = .ok es ↔ es.Perm ds ∧ es.Pairwise (· ≤ ·) := by
  obtain ⟨fs, hfs, hperm, hordered⟩ := exists_sorted ds
  rw [hfs]
  constructor
  · rintro ⟨⟩
    exact ⟨hperm, hordered⟩
  · rintro ⟨hp, ho⟩
    exact congrArg Except.ok <|
      (hperm.trans hp.symm).eq_of_pairwise (fun _ _ _ _ => le_antisymm) hordered ho

end Operand

end Duration

end RhythmTree
