import Mathlib.Algebra.BigOperators.Fin
import RhythmTree.Proofs.Arithmetic

/-!
# Calculations with durations

A calculation makes durations and combines them by any number of operations. Its exact result is the
rational number that these give when nobody minds the signs. The calculation comes to that number as
long as nothing on the way is negative, and it has no other way to come to a duration.

* `Operation`, `Calculation`, `Calculation.eval`: what can be calculated, and what it comes to.
* `Operation.Gives`, `Calculation.Gives`: the exact results.
* `Operation.run_eq_ok_iff`: **an operation on durations is exact.**
* `Calculation.eval_eq_ok_iff`: **a calculation is exact, and ends if none of its parts is
  negative.**
* `arithmetic_laws`: **calculations, and the laws of the operators.**
-/

namespace RhythmTree.Duration

open Operand

/-! ### Operations -/

/-- The operations on durations, by the number of durations that they take. The one that sorts
yields the duration at a place of the order. -/
inductive Operation : ℕ → Type
  | new (x : Operand) : Operation 0
  | add : Operation 2
  | sub : Operation 2
  | mul (x : Operand) : Operation 1
  | mulLeft (x : Operand) : Operation 1
  | div (x : Operand) : Operation 1
  | sum (n : ℕ) : Operation n
  | sorted {n : ℕ} (i : Fin n) : Operation n

namespace Operation

/-- What an operation makes of durations. -/
def run {n : ℕ} : Operation n → (Fin n → Duration) → Except Error Duration
  | new x, _ => x.exact
  | add, ds => Operand.add (ds 0) (ds 1)
  | sub, ds => Operand.sub (ds 0) (ds 1)
  | mul x, ds => Operand.mul (ds 0) x
  | mulLeft x, ds => Operand.mul x (ds 0)
  | div x, ds => Operand.div (ds 0) x
  | sum _, ds => Operand.sum ((List.ofFn ds).map .duration)
  | sorted i, ds =>
    -- sorting loses no duration, so there is one at every place
    (Operand.sorted ((List.ofFn ds).map .duration)).map fun es => es.getD i zero

/-- The exact result of an operation on rational numbers, be they negative or not. -/
def Gives {n : ℕ} : Operation n → (Fin n → ℚ) → ℚ → Prop
  | new x, _, r => x.Denotes r
  | add, qs, r => r = qs 0 + qs 1
  | sub, qs, r => r = qs 0 - qs 1
  | mul x, qs, r | mulLeft x, qs, r => ∃ q, x.IsNumber q ∧ r = qs 0 * q
  | div x, qs, r => ∃ m, x.IsInt m ∧ m ≠ 0 ∧ r = qs 0 / m
  | sum _, qs, r => r = ∑ i, qs i
  | sorted i, qs, r => ∃ σ : Equiv.Perm (Fin n), Monotone (qs ∘ σ) ∧ r = qs (σ i)

variable {n : ℕ} {o : Operation n} {d : Duration}

theorem Gives.unique {qs : Fin n → ℚ} {p q : ℚ} (h : o.Gives qs p) (h' : o.Gives qs q) :
    p = q := by
  cases o with
  | new x => exact Denotes.unique h h'
  | add | sub | sum n => exact h.trans h'.symm
  | mul x | mulLeft x =>
    obtain ⟨s, hs, rfl⟩ := h
    obtain ⟨t, ht, rfl⟩ := h'
    rw [hs.unique ht]
  | div x =>
    obtain ⟨m, hm, -, rfl⟩ := h
    obtain ⟨n, hn, -, rfl⟩ := h'
    rw [hm.unique hn]
  | sorted i =>
    obtain ⟨σ, hσ, rfl⟩ := h
    obtain ⟨τ, hτ, rfl⟩ := h'
    exact congrFun (Tuple.unique_monotone hσ hτ) i

/-- Whatever puts durations into their order names the one at a place of it. -/
theorem run_sorted {ds : Fin n → Duration} {σ : Equiv.Perm (Fin n)}
    (hσ : Monotone ((fun j => (ds j).value) ∘ σ)) (i : Fin n) :
    (sorted i).run ds = .ok (ds (σ i)) := by
  have hordered : (List.ofFn (ds ∘ σ)).Pairwise (· ≤ ·) :=
    List.pairwise_ofFn.mpr fun j k h => hσ h.le
  have h := sorted_eq_ok_iff.mpr ⟨σ.ofFn_comp_perm ds, hordered⟩
  show (Operand.sorted ((List.ofFn ds).map .duration)).map (fun es => es.getD i zero) = _
  rw [h]
  show Except.ok ((List.ofFn (ds ∘ σ)).getD i zero) = _
  simp

/-- **An operation on durations is exact.** -/
theorem run_eq_ok_iff (ds : Fin n → Duration) :
    o.run ds = .ok d ↔ o.Gives (fun i => (ds i).value) d.value := by
  cases o with
  | new x => exact exact_eq_ok_iff
  | add =>
    show Except.ok (ds 0 + ds 1) = Except.ok d ↔ d.value = (ds 0).value + (ds 1).value
    rw [Except.ok.injEq, Duration.ext_iff, value_add, eq_comm]
  | sub => exact sub_eq_ok_iff
  | mul x => exact mul_eq_ok_iff
  | mulLeft x => exact mul_left_eq_ok_iff.trans mul_eq_ok_iff
  | div x => exact div_eq_ok_iff
  | sum n =>
    show Operand.sum ((List.ofFn ds).map .duration) = .ok d ↔ d.value = ∑ i, (ds i).value
    rw [sum_durations, Except.ok.injEq, Duration.ext_iff, value_sum, List.map_ofFn, List.sum_ofFn,
      eq_comm]
    rfl
  | sorted i =>
    constructor
    · intro h
      have hσ := Tuple.monotone_sort fun j => (ds j).value
      rw [run_sorted hσ i] at h
      cases h
      exact ⟨_, hσ, rfl⟩
    · rintro ⟨σ, hσ, h⟩
      rw [run_sorted hσ i, Duration.ext h]

end Operation

/-! ### Calculations -/

/-- A calculation: an operation on the results of other calculations. -/
inductive Calculation
  | apply {n : ℕ} (o : Operation n) (cs : Fin n → Calculation)

theorem eq_ok_of_toOption {α ε : Type} {x : Except ε α} {y : α} (h : x.toOption = some y) :
    x = .ok y := by
  cases x with
  | error e => cases h
  | ok z =>
    cases h
    rfl

/-- The results of some attempts, or the first error among them. -/
def collect {α ε : Type} : {n : ℕ} → (Fin n → Except ε α) → Except ε (Fin n → α)
  | 0, _ => .ok Fin.elim0
  | _ + 1, xs => do
    let first ← xs 0
    let rest ← collect fun i => xs i.succ
    return Fin.cons first rest

theorem collect_eq_ok_iff {α ε : Type} {n : ℕ} {xs : Fin n → Except ε α} {ys : Fin n → α} :
    collect xs = .ok ys ↔ ∀ i, xs i = .ok (ys i) := by
  induction n with
  | zero =>
    exact iff_of_true (congrArg Except.ok (Subsingleton.elim _ _)) fun i => i.elim0
  | succ n ih =>
    simp only [collect, bind_eq_ok_iff, ih, Fin.forall_fin_succ]
    constructor
    · rintro ⟨first, hfirst, rest, hrest, h⟩
      cases h
      exact ⟨hfirst, hrest⟩
    · rintro ⟨hfirst, hrest⟩
      exact ⟨ys 0, hfirst, fun i => ys i.succ, hrest, congrArg Except.ok (Fin.cons_self_tail ys)⟩

namespace Calculation

/-- What a calculation comes to, its parts taken in order. -/
def eval : Calculation → Except Error Duration
  | apply o cs => do o.run (← collect fun i => (cs i).eval)

/-- The exact result of a calculation, be it negative or not. -/
inductive Gives : Calculation → ℚ → Prop
  | apply {n : ℕ} {o : Operation n} {cs : Fin n → Calculation} {qs : Fin n → ℚ} {r : ℚ}
      (parts : ∀ i, Gives (cs i) (qs i)) (result : o.Gives qs r) : Gives (.apply o cs) r

/-- The calculations that a calculation is put together from, itself among them. -/
inductive Part : Calculation → Calculation → Prop
  | self (c : Calculation) : Part c c
  | inner {n : ℕ} {o : Operation n} {cs : Fin n → Calculation} {b : Calculation} (i : Fin n)
      (part : Part b (cs i)) : Part b (.apply o cs)

/-- A new duration has the amount that it is made of. -/
theorem Gives.new {x : Operand} {q : ℚ} (h : x.Denotes q) (cs : Fin 0 → Calculation) :
    Gives (.apply (.new x) cs) q := @Gives.apply 0 (.new x) cs Fin.elim0 q nofun h

/-- No calculation has two exact results. -/
theorem Gives.unique {c : Calculation} {p q : ℚ} (h : c.Gives p) (h' : c.Gives q) : p = q := by
  induction h generalizing q with
  | apply parts result ih =>
    cases h' with
    | apply parts' result' =>
      obtain rfl := funext fun i => ih i (parts' i)
      exact result.unique result'

theorem eval_apply_eq_ok_iff {n : ℕ} {o : Operation n} {cs : Fin n → Calculation} {d : Duration} :
    (apply o cs).eval = .ok d ↔ ∃ ds : Fin n → Duration, (∀ i, (cs i).eval = .ok (ds i)) ∧
      o.Gives (fun i => (ds i).value) d.value := by
  rw [eval, bind_eq_ok_iff]
  simp only [collect_eq_ok_iff, Operation.run_eq_ok_iff]

/-- **A calculation is exact, and ends if none of its parts is negative.** -/
theorem eval_eq_ok_iff {c : Calculation} {d : Duration} :
    c.eval = .ok d ↔ c.Gives d.value ∧ ∀ b q, Part b c → b.Gives q → 0 ≤ q := by
  induction c generalizing d with
  | apply o cs ih =>
    rw [eval_apply_eq_ok_iff]
    constructor
    · rintro ⟨ds, hds, hd⟩
      have hparts i := (ih i).mp (hds i)
      have hgives : (apply o cs).Gives d.value := .apply (fun i => (hparts i).1) hd
      refine ⟨hgives, fun b q hb hq => ?_⟩
      cases hb with
      | self => exact hgives.unique hq ▸ d.nonneg
      | inner i hb => exact (hparts i).2 b q hb hq
    · rintro ⟨hgives, hpos⟩
      cases hgives with
      | @apply _ _ _ qs _ parts result =>
        have hqs i : 0 ≤ qs i := hpos (cs i) (qs i) (.inner i (.self _)) (parts i)
        refine ⟨fun i => ⟨qs i, hqs i⟩, fun i => (ih i).mpr ⟨parts i, ?_⟩, result⟩
        exact fun b q hb => hpos b q (.inner i hb)

end Calculation

/-! ### The laws -/

/-- **Calculations with durations are exact**: a calculation comes to its exact result if nothing on
the way is negative, and to no duration otherwise. A difference fails exactly if it is below zero, a
product if a negative number multiplies some time, and a quotient if the divisor is zero or a
negative one divides some time; all others can be taken back. Sums, and products with numbers that
are not negative, keep the order. The comparisons are those of a total order, in which two durations
are equal if each is at most the other. Sorting gives the same durations in this order. -/
theorem arithmetic_laws :
    (∀ (c : Calculation) (d : Duration), c.eval = .ok d ↔
      c.Gives d.value ∧ ∀ b q, Calculation.Part b c → b.Gives q → 0 ≤ q) ∧
    (∀ (c : Calculation) (p q : ℚ), c.Gives p → c.Gives q → p = q) ∧
    (∀ a b : Duration, (∀ k, Fails (sub a b) k ↔ k = .value ∧ a < b) ∧
      (b ≤ a → ∃ d : Duration, sub a b = .ok d ∧ add d b = .ok a)) ∧
    (∀ (a : Duration) (x : Operand) (q : ℚ), x.IsNumber q →
      (∀ k, Fails (mul a x) k ↔ k = .value ∧ q < 0 ∧ a ≠ zero) ∧ mul x a = mul a x) ∧
    (∀ (a : Duration) (x : Operand) (n : ℤ), x.IsInt n →
      (∀ k, Fails (div a x) k ↔ k = .zeroDivision ∧ n = 0 ∨ k = .value ∧ n < 0 ∧ a ≠ zero) ∧
      (n ≠ 0 → (n < 0 → a = zero) → ∃ d : Duration, div a x = .ok d ∧ mul d x = .ok a)) ∧
    (∀ a b c d : Duration, a ≤ b → c ≤ d →
      ∃ s t, add a c = .ok s ∧ add b d = .ok t ∧ s ≤ t) ∧
    (∀ (a b : Duration) (x y : Operand) (p q : ℚ), x.IsNumber p → y.IsNumber q → 0 ≤ p → p ≤ q →
      a ≤ b → ∃ s t, mul a x = .ok s ∧ mul b y = .ok t ∧ s ≤ t) ∧
    (∀ a b c : Duration,
      (le a b = .ok (decide (a ≤ b)) ∧ lt a b = .ok (decide (a < b)) ∧
        ge a b = .ok (decide (b ≤ a)) ∧ gt a b = .ok (decide (b < a))) ∧
      (a ≤ b ∨ b ≤ a) ∧ (a ≤ b → b ≤ c → a ≤ c) ∧ (a < b ↔ ¬ b ≤ a) ∧
      (eq a b = true ↔ a ≤ b ∧ b ≤ a)) ∧
    ∀ ds : List Duration, ∃ es, sorted (ds.map .duration) = .ok es ∧ es.Perm ds ∧
      es.Pairwise (· ≤ ·) := by
  refine ⟨fun c d => Calculation.eval_eq_ok_iff, fun c p q => Calculation.Gives.unique, ?_, ?_, ?_,
    fun a b c d => add_mono, fun a b x y p q => mul_mono, ?_, exists_sorted⟩
  · exact fun a b => ⟨fun k => fails_sub, exists_sub_add⟩
  · intro a x q hx
    obtain ⟨hright, hleft⟩ := mul_of_isNumber hx a
    exact ⟨fun k => fails_mul hx, hleft.trans hright.symm⟩
  · exact fun a x n hx => ⟨fun k => fails_div hx, exists_div_mul hx⟩
  · intro a b c
    exact ⟨⟨rfl, rfl, rfl, rfl⟩, le_total a b, le_trans, not_le.symm, eq_iff⟩

open Calculation Operation in
/-- What is left of two and a half without one, and half of a third of four. -/
def restAndHalf : Fin 2 → Calculation :=
  ![apply .sub ![apply (.new (.plain (.text (Text.ofString " 5/2 ")))) ![],
      apply (.new (.plain (.bool true))) ![]],
    apply (.div (.plain (.int 2))) ![apply (.mulLeft (.ratio (1 / 3)))
      ![apply (.new (.plain (.int 4))) ![]]]]

/-- The one of them that comes first in the order. -/
def shorterOne : Calculation := .apply (.sorted 0) restAndHalf

theorem eval_shorterOne : shorterOne.eval = .ok ⟨2 / 3, by norm_num⟩ := by
  have hparts : ∀ i, (restAndHalf i).eval.toOption =
      some ((![⟨3 / 2, by norm_num⟩, ⟨2 / 3, by norm_num⟩] : Fin 2 → Duration) i) := by
    decide +kernel
  refine Calculation.eval_apply_eq_ok_iff.mpr
    ⟨_, fun i => eq_ok_of_toOption (hparts i), Equiv.swap 0 1, ?_, rfl⟩
  rw [Fin.monotone_iff_le_succ, Fin.forall_fin_one]
  show (2 / 3 : ℚ) ≤ 3 / 2
  norm_num

open Calculation Operation in
/-- One without two, which is no duration. -/
def oneLessTwo : Calculation :=
  apply .sub ![apply (.new (.ratio 1)) ![], apply (.new (.ratio 2)) ![]]

theorem gives_oneLessTwo : oneLessTwo.Gives (-1) := by
  have hone := Calculation.Gives.new (.number (.ratio 1)) ![]
  have htwo := Calculation.Gives.new (.number (.ratio 2)) ![]
  refine @Calculation.Gives.apply _ _ _ ![1, 2] _ (Fin.forall_fin_two.mpr ⟨hone, htwo⟩) ?_
  show (-1 : ℚ) = 1 - 2
  norm_num

theorem arithmetic_laws_shorterOne :
    (shorterOne.eval = .ok ⟨2 / 3, by norm_num⟩ ∧ shorterOne.Gives (2 / 3) ∧
      ∀ q, shorterOne.Gives q → q = 2 / 3) ∧
    (∀ d, Calculation.eval (.apply .add ![oneLessTwo, shorterOne]) ≠ .ok d) ∧
    (Fails (sub (ofNat 1) (ofNat 2)) .value ∧
      ∃ d : Duration, sub (ofNat 2) (ofNat 2) = .ok d ∧ add d (ofNat 2) = .ok (ofNat 2)) ∧
    (Fails (mul (ofNat 1) (.ratio (-1 / 2))) .value ∧ ∀ k, ¬ Fails (mul zero (.ratio (-1 / 2))) k) ∧
    (Fails (div zero (.plain (.int 0))) .zeroDivision ∧
      Fails (div (ofNat 1) (.plain (.int (-3)))) .value ∧
      ∃ d : Duration, div zero (.plain (.int (-3))) = .ok d ∧
        mul d (.plain (.int (-3))) = .ok zero) ∧
    (∃ s t, add (ofNat 1) zero = .ok s ∧ add (ofNat 2) (ofNat 3) = .ok t ∧ s ≤ t) ∧
    (∃ s t, mul (ofNat 1) (.ratio (1 / 2)) = .ok s ∧ mul (ofNat 2) (.plain (.bool true)) = .ok t ∧
      s ≤ t) ∧
    zero ≤ ofNat 2 := by
  obtain ⟨heval, hunique, hsub, hmul, hdiv, hadd, hmono, horder, -⟩ := arithmetic_laws
  have hgives := ((heval _ _).mp eval_shorterOne).1
  have hneg : IsNumber (.ratio (-1 / 2)) (-1 / 2) := .ratio _
  have hthree : IsInt (.plain (.int (-3))) (-3) := .int _
  refine ⟨⟨eval_shorterOne, hgives, fun q hq => hunique _ _ _ hq hgives⟩, ?_, ⟨?_, ?_⟩, ⟨?_, ?_⟩,
    ⟨?_, ?_, ?_⟩, ?_, ?_, ?_⟩
  · intro d hd
    have hpos := ((heval _ d).mp hd).2 oneLessTwo (-1) (.inner 0 (.self _)) gives_oneLessTwo
    norm_num at hpos
  · exact ((hsub _ _).1 _).mpr ⟨rfl, by decide⟩
  · exact (hsub _ _).2 (le_refl _)
  · exact ((hmul _ _ _ hneg).1 _).mpr ⟨rfl, by norm_num, by decide⟩
  · intro k hk
    exact (((hmul _ _ _ hneg).1 k).mp hk).2.2 rfl
  · exact ((hdiv _ _ _ (.int 0)).1 _).mpr (.inl ⟨rfl, rfl⟩)
  · exact ((hdiv _ _ _ hthree).1 _).mpr (.inr ⟨rfl, by decide, by decide⟩)
  · exact (hdiv _ _ _ hthree).2 (by decide) fun _ => rfl
  · exact hadd _ _ _ _ (by decide) (by decide)
  · exact hmono _ _ _ _ _ _ (.ratio _) (.int (.truth true)) (by norm_num) (by norm_num) (by decide)
  · exact (horder zero (ofNat 1) (ofNat 2)).2.2.1 (by decide) (by decide)

end RhythmTree.Duration
