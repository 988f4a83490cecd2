import Mathlib.Algebra.Order.Field.Power
import Mathlib.Data.Int.Log
import Mathlib.Data.Rat.Floor
import Mathlib.Tactic.FieldSimp
import Mathlib.Tactic.Linarith
import Mathlib.Tactic.Positivity
import RhythmTree.Decimal.Shortest

/-!
# Rounding to floating point values

The code that a quotient is rounded to depends on the value of the quotient alone, and every number
that is less than half a step away from a magnitude is rounded to it. Below the least magnitude with
an exponent the steps are half as wide, so such numbers are kept apart.

* `floorLog2_eq_log`, `floorLog10_eq_log`: the exponents that are found by guessing.
* `nearestCode_congr`: **rounding depends on the value of the quotient alone.**
* `nearestCode_of_near`: **what is near a magnitude is rounded to it.**
-/

namespace RhythmTree.Decimal

/-! ### Powers with whole exponents -/

section

variable {b : ℕ}

theorem zpow_eq_div (k : ℤ) : (b : ℚ) ^ k = (b : ℚ) ^ k.toNat / (b : ℚ) ^ (-k).toNat := by
  obtain ⟨n, rfl | rfl⟩ := k.eq_nat_or_neg <;> simp

theorem scaled_div (hb : 0 < b) (num den : ℕ) (k : ℤ) :
    ((num * b ^ (-k).toNat : ℕ) : ℚ) / ((den * b ^ k.toNat : ℕ) : ℚ) =
      (num : ℚ) / den / (b : ℚ) ^ k := by
  have hb' : (b : ℚ) ≠ 0 := by positivity
  rw [zpow_eq_div]
  push_cast
  field_simp

theorem mul_pow_le_iff (hb : 0 < b) {num den : ℕ} (hd : 0 < den) (k : ℤ) :
    den * b ^ k.toNat ≤ num * b ^ (-k).toNat ↔ (b : ℚ) ^ k ≤ (num : ℚ) / den := by
  have hp : (0 : ℚ) < (b : ℚ) ^ k := by positivity
  have hm : (0 : ℚ) < (den * b ^ k.toNat : ℕ) := by positivity
  rw [← one_le_div hp, ← scaled_div hb, one_le_div hm, Nat.cast_le]

theorem log_eq_of_bounds (hb : 1 < b) {q : ℚ} {k : ℤ} (hl : (b : ℚ) ^ k ≤ q)
    (hu : q < (b : ℚ) ^ (k + 1)) : Int.log b q = k := by
  have hb' : 0 < b := by omega
  have hp : (0 : ℚ) < (b : ℚ) ^ k := by positivity
  have hq : 0 < q := lt_of_lt_of_le hp hl
  have h1 := (Int.zpow_le_iff_le_log hb hq).mp hl
  have h2 := (Int.lt_zpow_iff_log_lt hb hq).mp hu
  omega

/-- The exponent of a quotient is the difference of the exponents of its parts, or one less. -/
theorem guess_eq_log (hb : 1 < b) {num den m n : ℕ} (hm : b ^ m ≤ num) (hm' : num < b ^ (m + 1))
    (hn : b ^ n ≤ den) (hn' : den < b ^ (n + 1)) :
    (if den * b ^ ((m : ℤ) - n).toNat ≤ num * b ^ (-((m : ℤ) - n)).toNat then (m : ℤ) - n
      else (m : ℤ) - n - 1) = Int.log b ((num : ℚ) / den) := by
  have hb0 : 0 < b := by omega
  have hbq : (b : ℚ) ≠ 0 := by positivity
  have hd : 0 < den := lt_of_lt_of_le (by positivity) hn
  have hd' : (0 : ℚ) < den := by exact_mod_cast hd
  have hmq : (b : ℚ) ^ (m : ℤ) ≤ num := by exact_mod_cast hm
  have hmq' : (num : ℚ) < (b : ℚ) ^ ((m : ℤ) + 1) := by exact_mod_cast hm'
  have hnq : (b : ℚ) ^ (n : ℤ) ≤ den := by exact_mod_cast hn
  have hnq' : (den : ℚ) < (b : ℚ) ^ ((n : ℤ) + 1) := by exact_mod_cast hn'
  have hlow : (b : ℚ) ^ ((m : ℤ) - n - 1) ≤ (num : ℚ) / den := by
    rw [le_div_iff₀ hd']
    calc (b : ℚ) ^ ((m : ℤ) - n - 1) * den
        ≤ (b : ℚ) ^ ((m : ℤ) - n - 1) * (b : ℚ) ^ ((n : ℤ) + 1) := by gcongr
      _ = (b : ℚ) ^ (m : ℤ) := by
        rw [← zpow_add₀ hbq]
        congr 1
        ring
      _ ≤ num := hmq
  have hhigh : (num : ℚ) / den < (b : ℚ) ^ ((m : ℤ) - n + 1) := by
    rw [div_lt_iff₀ hd']
    calc (num : ℚ) < (b : ℚ) ^ ((m : ℤ) + 1) := hmq'
      _ = (b : ℚ) ^ ((m : ℤ) - n + 1) * (b : ℚ) ^ (n : ℤ) := by
        rw [← zpow_add₀ hbq]
        congr 1
        ring
      _ ≤ (b : ℚ) ^ ((m : ℤ) - n + 1) * den := by gcongr
  split
  · next h => exact (log_eq_of_bounds hb ((mul_pow_le_iff hb0 hd _).mp h) hhigh).symm
  · next h =>
    rw [mul_pow_le_iff hb0 hd, not_le] at h
    refine (log_eq_of_bounds hb hlow ?_).symm
    rwa [sub_add_cancel]

end

/-- The exponent of the greatest power of two that is at most a quotient. -/
theorem floorLog2_eq_log {num den : ℕ} (hn : 0 < num) (hd : 0 < den) :
    floorLog2 num den = Int.log 2 ((num : ℚ) / den) :=
  guess_eq_log (by decide) (Nat.log2_self_le (by omega)) Nat.lt_log2_self
    (Nat.log2_self_le (by omega)) Nat.lt_log2_self

theorem length_toDigits_bounds {n : ℕ} (hn : 0 < n) :
    10 ^ ((Nat.toDigits 10 n).length - 1) ≤ n ∧ n < 10 ^ ((Nat.toDigits 10 n).length - 1 + 1) := by
  have hl : 0 < (Nat.toDigits 10 n).length := Nat.length_toDigits_pos
  generalize hk : (Nat.toDigits 10 n).length = k at hl ⊢
  have hu : n < 10 ^ k := (Nat.length_toDigits_le_iff (by decide) hl).mp hk.le
  refine ⟨?_, by rwa [Nat.sub_add_cancel hl]⟩
  by_contra h
  rcases Nat.eq_or_lt_of_le hl with h1 | h1
  · have : n < 1 := by simpa [← h1] using h
    omega
  · have := (Nat.length_toDigits_le_iff (b := 10) (by decide) (by omega)).mpr (not_le.mp h)
    omega

/-- The exponent of the greatest power of ten that is at most a quotient. -/
theorem floorLog10_eq_log {num den : ℕ} (hn : 0 < num) (hd : 0 < den) :
    floorLog10 num den = Int.log 10 ((num : ℚ) / den) := by
  obtain ⟨h1, h2⟩ := length_toDigits_bounds hn
  obtain ⟨h3, h4⟩ := length_toDigits_bounds hd
  rw [← guess_eq_log (by decide) h1 h2 h3 h4]
  have hguess : ((Nat.toDigits 10 num).length : ℤ) - (Nat.toDigits 10 den).length =
      (((Nat.toDigits 10 num).length - 1 : ℕ) : ℤ) - ((Nat.toDigits 10 den).length - 1 : ℕ) := by
    have hl := Nat.length_toDigits_pos (b := 10) (n := num)
    have hr := Nat.length_toDigits_pos (b := 10) (n := den)
    omega
  rw [floorLog10, hguess]
  rfl

/-! ### Rounding quotients -/

theorem roundDiv_mul {k : ℕ} (hk : 0 < k) (num den : ℕ) :
    roundDiv (num * k) (den * k) = roundDiv num den := by
  have h2 : 2 * (num % den * k) = 2 * (num % den) * k := by ring
  simp only [roundDiv, Nat.mul_div_mul_right _ _ hk, Nat.mul_mod_mul_right, h2,
    Nat.mul_lt_mul_right hk]

theorem roundDiv_bounds (num den : ℕ) :
    num / den ≤ roundDiv num den ∧ roundDiv num den ≤ num / den + 1 := by
  simp only [roundDiv]
  split
  · omega
  · split
    · omega
    · split <;> omega

/-- What is less than half away from a whole number is rounded to it. -/
theorem roundDiv_of_near {num den m : ℕ} (hl : 2 * (m * den) < 2 * num + den)
    (hu : 2 * num < 2 * (m * den) + den) : roundDiv num den = m := by
  have hdiv := Nat.div_add_mod' num den
  have hmod := Nat.mod_lt num (show 0 < den by omega)
  have hcases : m = num / den ∨ m = num / den + 1 := by
    have hlow : m < num / den → (m + 1) * den ≤ num / den * den := fun h =>
      Nat.mul_le_mul_right den h
    have hhigh : num / den + 1 < m → (num / den + 2) * den ≤ m * den := fun h =>
      Nat.mul_le_mul_right den h
    rw [Nat.add_mul] at hlow hhigh
    omega
  unfold roundDiv
  rcases hcases with rfl | rfl
  · rw [if_pos (by omega)]
  · rw [Nat.add_mul] at hl
    rw [if_neg (by omega), if_pos (by omega)]

theorem nearestCode_mul {k : ℕ} (hk : 0 < k) (num : ℕ) {den : ℕ} (hd : 0 < den) :
    nearestCode (num * k) (den * k) = nearestCode num den := by
  unfold nearestCode
  by_cases hn : num = 0
  · rw [if_pos hn, if_pos (by rw [hn, Nat.zero_mul])]
  · have hn0 : 0 < num := by omega
    have hk' : (k : ℚ) ≠ 0 := by positivity
    have hlog : floorLog2 (num * k) (den * k) = floorLog2 num den := by
      rw [floorLog2_eq_log (by positivity) (by positivity), floorLog2_eq_log hn0 hd]
      push_cast
      rw [mul_div_mul_right _ _ hk']
    rw [if_neg hn, if_neg (by positivity), hlog]
    dsimp only
    rw [Nat.mul_right_comm num, Nat.mul_right_comm den, roundDiv_mul hk]

/-- **Rounding depends on the value of the quotient alone.** -/
theorem nearestCode_congr {num den num' den' : ℕ} (hd : 0 < den) (hd' : 0 < den')
    (h : (num : ℚ) / den = (num' : ℚ) / den') : nearestCode num den = nearestCode num' den' := by
  have hq : (den : ℚ) ≠ 0 := by positivity
  have hq' : (den' : ℚ) ≠ 0 := by positivity
  have hc : num * den' = num' * den := by
    rw [div_eq_div_iff hq hq'] at h
    exact_mod_cast h
  rw [← nearestCode_mul hd' num hd, hc, Nat.mul_comm den, nearestCode_mul hd num' hd']

/-- What is less than half a step away from a multiple of the step is rounded to it, where the step
is the power of two that the format has there. -/
theorem nearestCode_of_step {num den m : ℕ} {p : ℤ} (hd : 0 < den) (hm : 0 < m) (hm' : m < 2 ^ 53)
    (hp : -1074 ≤ p) (hl : (m : ℚ) - 1 / 2 < (num : ℚ) / den / (2 : ℚ) ^ p)
    (hu : (num : ℚ) / den / (2 : ℚ) ^ p < (m : ℚ) + 1 / 2)
    (hn : p = -1074 ∨ (2 : ℚ) ^ 52 ≤ (num : ℚ) / den / (2 : ℚ) ^ p) :
    nearestCode num den = (p + 1074).toNat * twoTo 52 + m := by
  have hp2 : (0 : ℚ) < (2 : ℚ) ^ p := by positivity
  have hm1 : (1 : ℚ) ≤ m := by exact_mod_cast hm
  have hn0 : 0 < num := by
    rcases Nat.eq_zero_or_pos num with rfl | h
    · norm_num at hl
      linarith
    · exact h
  have hq : (0 : ℚ) < (num : ℚ) / den := by positivity
  have hpower : max (-1074) (floorLog2 num den - 52) = p := by
    have hlt : floorLog2 num den < 53 + p := by
      rw [floorLog2_eq_log hn0 hd, ← Int.lt_zpow_iff_log_lt (by decide) hq]
      have hm53 : (m : ℚ) + 1 ≤ 2 ^ 53 := by exact_mod_cast hm'
      have h := (div_lt_iff₀ hp2).mp (hu.trans (by linarith : (m : ℚ) + 1 / 2 < 2 ^ 53))
      push_cast
      rw [zpow_add₀ (by norm_num)]
      exact_mod_cast h
    rcases hn with rfl | hn
    · omega
    · have hle : 52 + p ≤ floorLog2 num den := by
        rw [floorLog2_eq_log hn0 hd, ← Int.zpow_le_iff_le_log (by decide) hq]
        have h := (le_div_iff₀ hp2).mp hn
        push_cast
        rw [zpow_add₀ (by norm_num)]
        exact_mod_cast h
      omega
  have hscaled := scaled_div (b := 2) (by decide) num den p
  have hden : (0 : ℚ) < (den * 2 ^ p.toNat : ℕ) := by positivity
  rw [Nat.cast_ofNat] at hscaled
  rw [← hscaled, lt_div_iff₀ hden] at hl
  rw [← hscaled, div_lt_iff₀ hden] at hu
  have hround : roundDiv (num * 2 ^ (-p).toNat) (den * 2 ^ p.toNat) = m := by
    apply roundDiv_of_near
    · have h : (2 * (m * (den * 2 ^ p.toNat : ℕ)) : ℚ) <
          2 * (num * 2 ^ (-p).toNat : ℕ) + (den * 2 ^ p.toNat : ℕ) := by linarith
      exact_mod_cast h
    · have h : (2 * (num * 2 ^ (-p).toNat : ℕ) : ℚ) <
          2 * (m * (den * 2 ^ p.toNat : ℕ)) + (den * 2 ^ p.toNat : ℕ) := by linarith
      exact_mod_cast h
  rw [nearestCode, if_neg (by omega)]
  dsimp only
  rw [hpower]
  exact congrArg ((p + 1074).toNat * twoTo 52 + ·) hround

/-! ### Magnitudes -/

/-- The exact value of a magnitude. -/
def magnitude (code : ℕ) : ℚ := (codeNum code : ℚ) / codeDen code

theorem cast_twoTo (n : ℕ) : (twoTo n : ℚ) = 2 ^ n := by
  rw [show twoTo n = 2 ^ n from rfl]
  push_cast
  rfl

theorem twoTo_52 : twoTo 52 = 4503599627370496 := rfl

theorem magnitude_eq (code : ℕ) : magnitude code = mantissa code * (2 : ℚ) ^ exponent code := by
  have h := zpow_eq_div (b := 2) (exponent code)
  rw [Nat.cast_ofNat] at h
  rw [magnitude, codeNum, codeDen, h, Nat.cast_mul, cast_twoTo, cast_twoTo, mul_div_assoc]

theorem neg_1074_le_exponent (code : ℕ) : -1074 ≤ exponent code := by
  unfold exponent
  rw [twoTo_52]
  split <;> omega

theorem exponent_le {code : ℕ} (h : code < finiteCodes) : exponent code ≤ 971 := by
  rw [show finiteCodes = 2047 * 4503599627370496 from rfl] at h
  unfold exponent
  rw [twoTo_52]
  split <;> omega

theorem mantissa_lt (code : ℕ) : mantissa code < 2 ^ 53 := by
  unfold mantissa
  rw [twoTo_52]
  split <;> omega

/-- Only among the least magnitudes is the mantissa short. -/
theorem le_mantissa {code : ℕ} (h : exponent code ≠ -1074) : 2 ^ 52 ≤ mantissa code := by
  unfold exponent at h
  unfold mantissa
  rw [twoTo_52] at h ⊢
  split at h <;> split <;> omega

theorem mantissa_pos {code : ℕ} (h : 0 < code) : 0 < mantissa code := by
  unfold mantissa
  rw [twoTo_52]
  split <;> omega

/-- A code counts the magnitudes of its own exponent after all those before. -/
theorem code_eq (code : ℕ) :
    (exponent code + 1074).toNat * twoTo 52 + mantissa code = code := by
  unfold exponent mantissa
  rw [twoTo_52]
  split <;> omega

/-- A number is nearer to a magnitude than to the ones beside it: it is less than half a step away,
and it does not lie below the first of the magnitudes with their exponent. -/
def Near (code : ℕ) (q : ℚ) : Prop :=
  (mantissa code : ℚ) - 1 / 2 < q / (2 : ℚ) ^ exponent code ∧
    q / (2 : ℚ) ^ exponent code < (mantissa code : ℚ) + 1 / 2 ∧
    (exponent code = -1074 ∨ (2 : ℚ) ^ 52 ≤ q / (2 : ℚ) ^ exponent code)

/-- **What is near a magnitude is rounded to it.** -/
theorem nearestCode_of_near {code num den : ℕ} (hc : 0 < code) (hd : 0 < den)
    (h : Near code ((num : ℚ) / den)) : nearestCode num den = code := by
  obtain ⟨hl, hu, hn⟩ := h
  rw [nearestCode_of_step hd (mantissa_pos hc) (mantissa_lt code) (neg_1074_le_exponent code) hl hu
    hn, code_eq]

end RhythmTree.Decimal
