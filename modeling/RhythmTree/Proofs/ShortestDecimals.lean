import RhythmTree.Proofs.Numerals
import RhythmTree.Proofs.Rounding

/-!
# The shortest decimal of a magnitude

Seventeen digits always suffice: the decimals of that length are less than a step apart, so one of
the two around a magnitude is near to it. The search therefore ends with a decimal that reads back
as the magnitude, and any other spelling of the same number does so, too.

* `decimalCode_congr`: reading depends on the number alone.
* `exists_near_of_grid`: **one of two neighbours on a fine grid is near.**
* `decimalCode_shortest`: **the shortest decimal reads back as its magnitude, however it is
  spelled.**
-/

namespace RhythmTree.Decimal

/-! ### Reading decimals -/

theorem cast_tenTo (n : ℕ) : (tenTo n : ℚ) = 10 ^ n := by
  rw [show tenTo n = 10 ^ n from rfl]
  push_cast
  rfl

theorem cast_decimal (c : ℕ) (s : ℤ) :
    ((c * tenTo s.toNat : ℕ) : ℚ) / (tenTo (-s).toNat : ℕ) = c * (10 : ℚ) ^ s := by
  have h := zpow_eq_div (b := 10) s
  rw [Nat.cast_ofNat] at h
  rw [h, Nat.cast_mul, cast_tenTo, cast_tenTo, mul_div_assoc]

section

variable {c c' code : ℕ} {s s' : ℤ}

theorem decimalCode_eq_nearestCode (hc : c ≠ 0) (hl : -400 ≤ s) (hu : s ≤ 400) :
    decimalCode c s = nearestCode (c * tenTo s.toNat) (tenTo (-s).toNat) := by
  rw [decimalCode, if_neg hc, if_neg (by omega), if_neg (by omega)]

/-- A finite magnitude is not read off a number without the number being rounded. -/
theorem nearestCode_of_decimalCode (h : decimalCode c s = code) (hpos : 0 < code)
    (hfin : code < finiteCodes) :
    c ≠ 0 ∧ nearestCode (c * tenTo s.toNat) (tenTo (-s).toNat) = code := by
  unfold decimalCode at h
  split at h
  · omega
  · next hc =>
    split at h
    · omega
    · split at h
      · omega
      · exact ⟨hc, h⟩

/-- Reading depends on the number alone, as long as no power of ten is too large. -/
theorem decimalCode_congr (h : decimalCode c s = code) (hpos : 0 < code) (hfin : code < finiteCodes)
    (hq : (c : ℚ) * (10 : ℚ) ^ s = (c' : ℚ) * (10 : ℚ) ^ s') (hl : -400 ≤ s') (hu : s' ≤ 400) :
    decimalCode c' s' = code := by
  obtain ⟨hc, hn⟩ := nearestCode_of_decimalCode h hpos hfin
  have hc' : c' ≠ 0 := by
    rintro rfl
    have hcq : (c : ℚ) ≠ 0 := by exact_mod_cast hc
    have hp : (10 : ℚ) ^ s ≠ 0 := by positivity
    rw [Nat.cast_zero, zero_mul] at hq
    exact mul_ne_zero hcq hp hq
  rw [decimalCode_eq_nearestCode hc' hl hu, ← hn]
  exact nearestCode_congr (tenTo_pos _) (tenTo_pos _) (by rw [cast_decimal, cast_decimal, hq])

theorem decimalCode_of_near (hpos : 0 < code) (h : Near code ((c : ℚ) * (10 : ℚ) ^ s))
    (hl : -400 ≤ s) (hu : s ≤ 400) : decimalCode c s = code := by
  have hc : c ≠ 0 := by
    rintro rfl
    have hm : (1 : ℚ) ≤ mantissa code := by exact_mod_cast mantissa_pos hpos
    have h1 := h.1
    rw [Nat.cast_zero, zero_mul, zero_div] at h1
    linarith
  rw [decimalCode_eq_nearestCode hc hl hu]
  exact nearestCode_of_near hpos (tenTo_pos _) (by rwa [cast_decimal])

end

/-! ### Grids -/

/-- **One of two neighbours on a fine grid is near.** The grid is finer than a step of the format.
The upper neighbour will do where the mantissa is short, and above that the nearer one. -/
theorem exists_near_of_grid {m low : ℕ} {g : ℚ} (hm : m < 2 ^ 53) (hl : low * g ≤ m)
    (hu : (m : ℚ) < (low + 1 : ℕ) * g) (hg : g * 10 ^ 16 ≤ m) :
    ∃ n : ℕ, (n = low ∨ n = low + 1) ∧ (m : ℚ) - 1 / 2 < n * g ∧ n * g < (m : ℚ) + 1 / 2 ∧
      (2 ^ 52 ≤ m → (2 : ℚ) ^ 52 ≤ n * g) := by
  have hsum : ((low + 1 : ℕ) : ℚ) * g = low * g + g := by
    push_cast
    ring
  rw [hsum] at hu
  by_cases h52 : m ≤ 2 ^ 52
  · have hmq : (m : ℚ) ≤ 4503599627370496 := by exact_mod_cast h52
    refine ⟨low + 1, .inr rfl, ?_, ?_, fun h => ?_⟩
    · rw [hsum]
      linarith
    · rw [hsum]
      norm_num at hg
      linarith
    · have hmq' : (2 : ℚ) ^ 52 ≤ m := by exact_mod_cast h
      rw [hsum]
      linarith
  · have hmq : (2 : ℚ) ^ 52 + 1 ≤ m := by exact_mod_cast not_le.mp h52
    have hmq' : (m : ℚ) < 9007199254740992 := by exact_mod_cast hm
    have hg1 : g < 1 := by
      norm_num at hg
      linarith
    rcases le_total (m - low * g) (low * g + g - m) with h | h
    · refine ⟨low, .inl rfl, ?_, ?_, fun _ => ?_⟩ <;> linarith
    · refine ⟨low + 1, .inr rfl, ?_, ?_, fun _ => ?_⟩ <;> rw [hsum] <;> linarith

/-! ### The search -/

section

variable {code : ℕ}

theorem magnitude_pos (h : 0 < code) : 0 < magnitude code := by
  have hm : (0 : ℚ) < mantissa code := by exact_mod_cast mantissa_pos h
  rw [magnitude_eq]
  positivity

theorem two_pow_le_ten_pow (n : ℕ) : (2 : ℚ) ^ (3 * n) ≤ 10 ^ n := by
  rw [pow_mul]
  gcongr
  norm_num

/-- The exponents of the format are far inside the range of those that are read. -/
theorem log_magnitude_bounds (hpos : 0 < code) (hfin : code < finiteCodes) :
    -358 ≤ Int.log 10 (magnitude code) ∧ Int.log 10 (magnitude code) ≤ 341 := by
  have hv := magnitude_pos hpos
  have hm : (1 : ℚ) ≤ mantissa code := by exact_mod_cast mantissa_pos hpos
  have hm' : (mantissa code : ℚ) < 2 ^ 53 := by exact_mod_cast mantissa_lt code
  constructor
  · have hp : (2 : ℚ) ^ (-1074 : ℤ) ≤ (2 : ℚ) ^ exponent code :=
      zpow_le_zpow_right₀ (by norm_num) (neg_1074_le_exponent code)
    rw [← Int.zpow_le_iff_le_log (by decide) hv, magnitude_eq, Nat.cast_ofNat]
    calc (10 : ℚ) ^ (-358 : ℤ) ≤ (2 : ℚ) ^ (-1074 : ℤ) :=
          inv_anti₀ (by positivity) (two_pow_le_ten_pow 358)
      _ ≤ 1 * (2 : ℚ) ^ exponent code := by rwa [one_mul]
      _ ≤ mantissa code * (2 : ℚ) ^ exponent code := by gcongr
  · have hp : (2 : ℚ) ^ exponent code ≤ (2 : ℚ) ^ (971 : ℤ) :=
      zpow_le_zpow_right₀ (by norm_num) (exponent_le hfin)
    rw [← Int.lt_add_one_iff, ← Int.lt_zpow_iff_log_lt (by decide) hv, magnitude_eq,
      Nat.cast_ofNat]
    calc mantissa code * (2 : ℚ) ^ exponent code < 2 ^ 53 * (2 : ℚ) ^ exponent code := by gcongr
      _ ≤ 2 ^ 53 * (2 : ℚ) ^ (971 : ℤ) := by gcongr
      _ ≤ (2 : ℚ) ^ (3 * 342) := by
        rw [zpow_ofNat, ← pow_add]
        exact pow_le_pow_right₀ (by norm_num) (by norm_num)
      _ ≤ (10 : ℚ) ^ ((341 : ℤ) + 1) := two_pow_le_ten_pow 342

/-- The multiple of a power of ten that is next to a magnitude from below. -/
def lowOnGrid (code : ℕ) (scale : ℤ) : ℕ :=
  codeNum code * tenTo (-scale).toNat / (codeDen code * tenTo scale.toNat)

theorem lowOnGrid_bounds (code : ℕ) (scale : ℤ) :
    lowOnGrid code scale * (10 : ℚ) ^ scale ≤ magnitude code ∧
      magnitude code < (lowOnGrid code scale + 1 : ℕ) * (10 : ℚ) ^ scale := by
  have hp : (0 : ℚ) < (10 : ℚ) ^ scale := by positivity
  have hden : 0 < codeDen code * tenTo scale.toNat :=
    Nat.mul_pos (codeDen_pos code) (tenTo_pos _)
  have hden' : (0 : ℚ) < (codeDen code * tenTo scale.toNat : ℕ) := by exact_mod_cast hden
  have hscaled : ((codeNum code * tenTo (-scale).toNat : ℕ) : ℚ) /
      (codeDen code * tenTo scale.toNat : ℕ) = magnitude code / (10 : ℚ) ^ scale :=
    scaled_div (b := 10) (by decide) (codeNum code) (codeDen code) scale
  rw [← le_div_iff₀ hp, ← div_lt_iff₀ hp, ← hscaled, le_div_iff₀ hden', div_lt_iff₀ hden']
  constructor
  · exact_mod_cast Nat.div_mul_le_self _ _
  · rw [← Nat.cast_mul, Nat.cast_lt, Nat.add_mul, Nat.one_mul]
    exact Nat.lt_div_mul_add hden

theorem nearestOnGrid?_eq_ite (code : ℕ) (scale : ℤ) :
    nearestOnGrid? code scale =
      if decimalCode (lowOnGrid code scale) scale = code then
        if decimalCode (lowOnGrid code scale + 1) scale = code then
          some (roundDiv (codeNum code * tenTo (-scale).toNat) (codeDen code * tenTo scale.toNat))
        else some (lowOnGrid code scale)
      else if decimalCode (lowOnGrid code scale + 1) scale = code then
        some (lowOnGrid code scale + 1)
      else none := by
  unfold nearestOnGrid? lowOnGrid
  dsimp only
  generalize codeNum code * tenTo (-scale).toNat / (codeDen code * tenTo scale.toNat) = low
  by_cases h1 : decimalCode low scale = code <;>
    by_cases h2 : decimalCode (low + 1) scale = code <;> simp [h1, h2]

/-- What is found on a grid reads back, and it is a neighbour of the magnitude. -/
theorem decimalCode_of_nearestOnGrid? {scale : ℤ} {n : ℕ}
    (h : nearestOnGrid? code scale = some n) :
    decimalCode n scale = code ∧ n ≤ lowOnGrid code scale + 1 := by
  have hr := roundDiv_bounds (codeNum code * tenTo (-scale).toNat)
    (codeDen code * tenTo scale.toNat)
  rw [← lowOnGrid] at hr
  rw [nearestOnGrid?_eq_ite] at h
  split_ifs at h with h1 h2 h2 <;> obtain rfl := Option.some.inj h
  · rcases hr.1.eq_or_lt with he | hlt
    · rw [← he]
      exact ⟨h1, by omega⟩
    · rw [le_antisymm hr.2 hlt]
      exact ⟨h2, le_rfl⟩
  · exact ⟨h1, by omega⟩
  · exact ⟨h2, le_rfl⟩

theorem isSome_nearestOnGrid? {scale : ℤ} {n : ℕ}
    (hn : n = lowOnGrid code scale ∨ n = lowOnGrid code scale + 1)
    (h : decimalCode n scale = code) : (nearestOnGrid? code scale).isSome := by
  rw [nearestOnGrid?_eq_ite]
  rcases hn with rfl | rfl
  · rw [if_pos h]
    split <;> rfl
  · rw [if_pos h]
    split <;> rfl

/-- **Seventeen digits suffice.** -/
theorem isSome_nearestOnGrid?_of_log (hpos : 0 < code) (hfin : code < finiteCodes) :
    (nearestOnGrid? code (Int.log 10 (magnitude code) - 16)).isSome := by
  obtain ⟨h1, h2⟩ := log_magnitude_bounds hpos hfin
  have hlog := Int.zpow_log_le_self (b := 10) (by decide) (magnitude_pos hpos)
  generalize Int.log 10 (magnitude code) = leading at h1 h2 hlog ⊢
  have hp : (0 : ℚ) < (2 : ℚ) ^ exponent code := by positivity
  obtain ⟨hl, hu⟩ := lowOnGrid_bounds code (leading - 16)
  have hstep : (10 : ℚ) ^ (leading - 16) * 10 ^ 16 = (10 : ℚ) ^ leading := by
    rw [zpow_sub₀ (by norm_num)]
    norm_num
  rw [magnitude_eq] at hl hu hlog
  rw [← div_le_iff₀ hp, mul_div_assoc] at hl
  rw [← lt_div_iff₀ hp, mul_div_assoc] at hu
  have hg : (10 : ℚ) ^ (leading - 16) / (2 : ℚ) ^ exponent code * 10 ^ 16 ≤ mantissa code := by
    rw [div_mul_eq_mul_div, hstep, div_le_iff₀ hp]
    exact hlog
  obtain ⟨n, hn, hlow, hhigh, hfirst⟩ := exists_near_of_grid (mantissa_lt code) hl hu hg
  rw [← mul_div_assoc] at hlow hhigh hfirst
  have hnear : Near code (n * (10 : ℚ) ^ (leading - 16)) := by
    refine ⟨hlow, hhigh, ?_⟩
    by_cases he : exponent code = -1074
    · exact .inl he
    · exact .inr (hfirst (le_mantissa he))
  exact isSome_nearestOnGrid? hn (decimalCode_of_near hpos hnear (by omega) (by omega))

/-- The search ends on a grid, if there is one in its range. -/
theorem shortestFrom_spec {leading : ℤ} {last : ℕ} (count fuel : ℕ) (hc : count ≤ last)
    (hl : last < count + fuel) (h : (nearestOnGrid? code (leading + 1 - last)).isSome) :
    ∃ k : ℕ, count ≤ k ∧ k ≤ last ∧
      nearestOnGrid? code (leading + 1 - k) = some (shortestFrom code leading count fuel).1 ∧
      (shortestFrom code leading count fuel).2 = leading + 1 - k := by
  induction fuel generalizing count with
  | zero => omega
  | succ fuel ih =>
    rw [shortestFrom]
    cases hg : nearestOnGrid? code (leading + 1 - count) with
    | some n => exact ⟨count, le_rfl, hc, hg, rfl⟩
    | none =>
      have hne : count ≠ last := by
        rintro rfl
        rw [hg] at h
        cases h
      obtain ⟨k, hk, hk', hs⟩ := ih (count + 1) (by omega) (by omega)
      exact ⟨k, by omega, hk', hs⟩

theorem codeNum_pos (h : 0 < code) : 0 < codeNum code :=
  Nat.mul_pos (mantissa_pos h) (twoTo_pos _)

/-- The number that the search ends with reads back. -/
theorem shortestFrom_reads (hpos : 0 < code) (hfin : code < finiteCodes) :
    ∃ (n : ℕ) (scale : ℤ),
      shortestFrom code (floorLog10 (codeNum code) (codeDen code)) 1 17 = (n, scale) ∧
        decimalCode n scale = code ∧ -400 ≤ scale ∧ (n : ℚ) * (10 : ℚ) ^ scale < 10 ^ 400 := by
  have hv := magnitude_pos hpos
  obtain ⟨h1, h2⟩ := log_magnitude_bounds hpos hfin
  have hlog := Int.zpow_log_le_self (b := 10) (by decide) hv
  have hlog' : magnitude code < ((10 : ℕ) : ℚ) ^ (342 : ℤ) :=
    (Int.lt_zpow_iff_log_lt (by decide) hv).mpr (by omega)
  have hsome := isSome_nearestOnGrid?_of_log hpos hfin
  rw [floorLog10_eq_log (codeNum_pos hpos) (codeDen_pos code), ← magnitude]
  generalize Int.log 10 (magnitude code) = leading at h1 h2 hlog hsome ⊢
  have h17 : leading + 1 - (17 : ℕ) = leading - 16 := by
    push_cast
    ring
  rw [← h17] at hsome
  obtain ⟨k, hk, hk', hgrid, hscale⟩ :=
    shortestFrom_spec 1 17 (by decide) (by decide) hsome
  generalize shortestFrom code leading 1 17 = found at hgrid hscale ⊢
  obtain ⟨n, scale⟩ := found
  dsimp only at hgrid hscale
  obtain ⟨hreads, hn⟩ := decimalCode_of_nearestOnGrid? hgrid
  rw [← hscale] at hreads hn
  refine ⟨n, scale, rfl, hreads, by omega, ?_⟩
  have hstep : (10 : ℚ) ^ scale ≤ magnitude code := by
    refine le_trans (zpow_le_zpow_right₀ (by norm_num) ?_) hlog
    omega
  have hp : (0 : ℚ) < (10 : ℚ) ^ scale := by positivity
  have hlow := (lowOnGrid_bounds code scale).1
  calc (n : ℚ) * (10 : ℚ) ^ scale ≤ (lowOnGrid code scale + 1 : ℕ) * (10 : ℚ) ^ scale := by gcongr
    _ = lowOnGrid code scale * (10 : ℚ) ^ scale + (10 : ℚ) ^ scale := by
      push_cast
      ring
    _ ≤ magnitude code + magnitude code := by linarith
    _ < (10 : ℚ) ^ (342 : ℤ) + (10 : ℚ) ^ (342 : ℤ) := by
      rw [Nat.cast_ofNat] at hlog'
      linarith
    _ ≤ (10 : ℚ) ^ 343 := by
      rw [zpow_ofNat, pow_succ _ 342]
      have hp' : (0 : ℚ) < 10 ^ 342 := by positivity
      generalize (10 : ℚ) ^ 342 = x at hp' ⊢
      linarith
    _ ≤ (10 : ℚ) ^ 400 := pow_le_pow_right₀ (by norm_num) (by norm_num)

end

/-! ### Digits -/

open Text (asciiValues ofDigits)

theorem exists_eq_append_zeros (ds : List Char) :
    ∃ t, ds = withoutTrailingZeros ds ++ List.replicate t '0' := by
  have hsplit := List.takeWhile_append_dropWhile (p := fun c => decide (c = '0')) (l := ds.reverse)
  have hzeros : ∀ c ∈ (ds.reverse.takeWhile fun c => decide (c = '0')).reverse, c = '0' := by
    intro c hc
    have hall := List.all_takeWhile (p := fun c => decide (c = '0')) (l := ds.reverse)
    exact of_decide_eq_true (List.all_eq_true.mp hall c (List.mem_reverse.mp hc))
  refine ⟨(ds.reverse.takeWhile fun c => decide (c = '0')).reverse.length, ?_⟩
  rw [← List.eq_replicate_of_mem hzeros, withoutTrailingZeros, ← List.reverse_append, hsplit,
    List.reverse_reverse]

namespace DecimalDigits

/-- The number that a decimal denotes. -/
def value (d : DecimalDigits) : ℚ :=
  ofDigits (asciiValues d.digits) * (10 : ℚ) ^ (d.exponent + 1 - d.digits.length)

/-- There are digits, and the first of them is not zero unless the decimal is plain zero. -/
structure Proper (d : DecimalDigits) : Prop where
  ne_nil : d.digits ≠ []
  isDigit : ∀ c ∈ d.digits, c.isDigit = true
  head : d.digits.head? = some '0' → d.digits = ['0'] ∧ d.exponent = 0

/-- The power of ten of the last digit is not larger than the number. -/
theorem le_of_value_lt (d : DecimalDigits) {k : ℕ} (hpos : 0 < d.value) (h : d.value < 10 ^ k) :
    d.exponent + 1 - d.digits.length ≤ k := by
  unfold value at hpos h
  generalize d.exponent + 1 - d.digits.length = e at hpos h ⊢
  have hp : (0 : ℚ) < (10 : ℚ) ^ e := by positivity
  have hn : (1 : ℚ) ≤ ofDigits (asciiValues d.digits) := by
    have hn0 : ofDigits (asciiValues d.digits) ≠ 0 := by
      intro h0
      rw [h0, Nat.cast_zero, zero_mul] at hpos
      exact lt_irrefl _ hpos
    exact_mod_cast Nat.one_le_iff_ne_zero.mpr hn0
  have hlt : (10 : ℚ) ^ e < (10 : ℚ) ^ (k : ℤ) := by
    rw [zpow_natCast]
    exact lt_of_le_of_lt (le_mul_of_one_le_left hp.le hn) h
  exact ((zpow_lt_zpow_iff_right₀ (by norm_num)).mp hlt).le

end DecimalDigits

/-- The decimal of some digits and a power of ten. -/
def trimmed (n : ℕ) (scale : ℤ) : DecimalDigits :=
  let digits := Nat.toDigits 10 n
  ⟨withoutTrailingZeros digits, scale + digits.length - 1⟩

theorem proper_trimmed {n : ℕ} (h : 0 < n) (scale : ℤ) : (trimmed n scale).Proper := by
  obtain ⟨t, ht⟩ := exists_eq_append_zeros (Nat.toDigits 10 n)
  have hne : withoutTrailingZeros (Nat.toDigits 10 n) ≠ [] := by
    intro he
    have hv := Text.ofDigits_toDigits n
    rw [ht, he, Text.ofDigits_append_zeros] at hv
    simp [asciiValues] at hv
    omega
  refine ⟨hne, fun c hc => ?_, fun hh => ?_⟩
  · refine Text.isDigit_of_mem_toDigits (n := n) ?_
    rw [ht]
    exact List.mem_append_left _ hc
  · have hhead := Text.head?_toDigits_ne_zero h
    rw [ht, List.head?_append_of_ne_nil _ hne] at hhead
    exact absurd hh hhead

theorem value_trimmed (n : ℕ) (scale : ℤ) :
    (trimmed n scale).value = n * (10 : ℚ) ^ scale ∧
      scale ≤ (trimmed n scale).exponent + 1 - (trimmed n scale).digits.length := by
  obtain ⟨t, ht⟩ := exists_eq_append_zeros (Nat.toDigits 10 n)
  have hlength := congrArg List.length ht
  rw [List.length_append, List.length_replicate] at hlength
  have hn : (n : ℚ) = 10 ^ t * ofDigits (asciiValues (trimmed n scale).digits) := by
    have hv := Text.ofDigits_toDigits n
    rw [ht, Text.ofDigits_append_zeros] at hv
    exact_mod_cast hv.symm
  have hexponent : (trimmed n scale).exponent + 1 - (trimmed n scale).digits.length =
      t + scale := by
    simp only [trimmed, hlength]
    push_cast
    ring
  refine ⟨?_, by omega⟩
  rw [DecimalDigits.value, hexponent, hn, zpow_add₀ (by norm_num), zpow_natCast]
  ring

/-- **The shortest decimal reads back as its magnitude, however it is spelled.** -/
theorem decimalCode_shortest {code : ℕ} (hfin : code < finiteCodes) :
    (shortest code).Proper ∧
      -400 ≤ (shortest code).exponent + 1 - (shortest code).digits.length ∧
      (shortest code).exponent + 1 - (shortest code).digits.length ≤ 400 ∧
      ∀ (c : ℕ) (s : ℤ), (c : ℚ) * (10 : ℚ) ^ s = (shortest code).value → -400 ≤ s → s ≤ 400 →
        decimalCode c s = code := by
  rcases Nat.eq_zero_or_pos code with rfl | hpos
  · have hvalue : (shortest 0).value = 0 := by
      have hz : ((ofDigits (asciiValues ['0']) : ℕ) : ℚ) = 0 := Nat.cast_zero
      exact mul_eq_zero_of_left hz _
    have hproper : (shortest 0).Proper :=
      ⟨List.cons_ne_nil _ _, List.forall_mem_singleton.mpr rfl, fun _ => ⟨rfl, rfl⟩⟩
    refine ⟨hproper, by decide, by decide, fun c s hq _ _ => ?_⟩
    have hp : (10 : ℚ) ^ s ≠ 0 := by positivity
    rw [hvalue, mul_eq_zero_iff_right hp, Nat.cast_eq_zero] at hq
    rw [hq]
    rfl
  · obtain ⟨n, scale, hfound, hreads, hscale, hsmall⟩ := shortestFrom_reads hpos hfin
    have hs : shortest code = trimmed n scale := by
      rw [shortest, if_neg (by omega)]
      dsimp only
      rw [hfound]
      rfl
    obtain ⟨hvalue, hle⟩ := value_trimmed n scale
    have hn := (nearestCode_of_decimalCode hreads hpos hfin).1
    rw [hs]
    refine ⟨proper_trimmed (by omega) scale, by omega, ?_, fun c s hq hl hu => ?_⟩
    · rw [← hvalue] at hsmall
      exact (trimmed n scale).le_of_value_lt (by rw [hvalue]; positivity) hsmall
    · rw [hvalue] at hq
      exact decimalCode_congr hreads hpos hfin hq.symm hl hu

end RhythmTree.Decimal
