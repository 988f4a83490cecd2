import RhythmTree.Document.Json.Printer
import RhythmTree.Document.Json.Reader
import RhythmTree.Proofs.ShortestDecimals
import RhythmTree.Proofs.WrittenDurations

/-!
# Numbers in JSON

A number is written as a numeral: a sign, digits, a point with digits and an exponent, of which only
the digits are always there. Whichever layout a floating point value gets, its numeral spells the
shortest decimal of the magnitude, with zeros put before or after the digits, and so the numeral is
read as that value. A whole number has neither point nor exponent and is read as itself.

* `Numeral.number?_chars`: **a numeral is read as its value.**
* `Spells`: a numeral with given characters that spells a decimal.
* `exists_numeral_float`, `exists_numeral_int`: **a number is read back from its text.**
* `word?_chars`: a numeral is none of the words that JSON has beside numerals.
-/

namespace RhythmTree.Document.Json

open Decimal (Binary64)
open Text (asciiValues ofDigits signed)

/-- A numeral: a sign, digits, perhaps a point with digits and perhaps an exponent with its sign. -/
structure Numeral where
  negative : Bool
  front : List Char
  back : Option (List Char)
  power : Option (Bool × List Char)

namespace Numeral

variable (n : Numeral)

/-- The characters before the exponent, without the sign. -/
def mantissa : List Char := n.front ++ n.back.elim [] ('.' :: ·)

/-- The characters of the exponent. -/
def exponent : List Char :=
  n.power.elim [] fun power => 'e' :: (if power.1 then '-' else '+') :: power.2

/-- The characters of a numeral. -/
def chars : List Char :=
  (if n.negative then ['-'] else []) ++ (n.mantissa ++ n.exponent)

/-- The decimal that the digits spell. -/
def parts : Text.DecimalParts where
  whole := asciiValues n.front
  fraction := n.back.elim [] asciiValues
  exponent := n.power.elim 0 fun power => signed power.1 (ofDigits (asciiValues power.2))

/-- The value of a numeral. -/
def value : Document :=
  if n.back.isNone && n.power.isNone then .int (signed n.negative (ofDigits (asciiValues n.front)))
  else .float (Binary64.ofDecimal n.negative n.parts)

/-- Digits stand where they have to, and there are no needless zeros in front. -/
structure Proper : Prop where
  front_ne_nil : n.front ≠ []
  front_isDigit : ∀ c ∈ n.front, c.isDigit = true
  head : n.front.head? = some '0' → n.front = ['0']
  back_ne_nil : ∀ ds ∈ n.back, ds ≠ []
  back_isDigit : ∀ ds ∈ n.back, ∀ c ∈ ds, c.isDigit = true
  power_ne_nil : ∀ p ∈ n.power, p.2 ≠ []
  power_isDigit : ∀ p ∈ n.power, ∀ c ∈ p.2, c.isDigit = true

variable {n}

theorem Proper.exists_front (h : n.Proper) :
    ∃ c cs, n.front = c :: cs ∧ c.isDigit = true := by
  obtain ⟨c, cs, hc⟩ := List.exists_cons_of_ne_nil h.front_ne_nil
  exact ⟨c, cs, hc, h.front_isDigit c (hc ▸ List.mem_cons_self)⟩

theorem Proper.sign (h : n.Proper) :
    (match n.chars with
      | '-' :: rest => (true, rest)
      | rest => (false, rest)) = (n.negative, n.mantissa ++ n.exponent) := by
  obtain ⟨c, cs, hc, hdigit⟩ := h.exists_front
  unfold chars
  cases n.negative with
  | true => rfl
  | false =>
    rw [mantissa, hc]
    simp only [Bool.false_eq_true, if_false, List.nil_append, List.cons_append]
    split
    · next hm => exact absurd (List.cons.inj hm).1 (Duration.ne_of_isDigit rfl hdigit)
    · rfl

theorem Proper.split_mantissa (h : n.Proper) :
    Text.splitAtFirst (· = '.') n.mantissa = (n.front, n.back) := by
  have hfront : ∀ c ∈ n.front, decide (c = '.') = false := by
    intro c hc
    exact decide_eq_false (Duration.ne_of_isDigit rfl (h.front_isDigit c hc))
  unfold mantissa
  cases n.back with
  | none => rw [Option.elim_none, List.append_nil, Text.splitAtFirst_of_all hfront]
  | some ds => exact Text.splitAtFirst_append hfront rfl ds

theorem Proper.not_power_of_mem_mantissa (h : n.Proper) {c : Char} (hc : c ∈ n.mantissa) :
    (decide (c = 'e') || decide (c = 'E')) = false := by
  have hd : c = '.' ∨ c.isDigit = true := by
    rcases List.mem_append.mp hc with hc | hc
    · exact .inr (h.front_isDigit c hc)
    · cases hb : n.back with
      | none =>
        rw [hb] at hc
        cases hc
      | some ds =>
        rw [hb] at hc
        rcases List.mem_cons.mp hc with rfl | hc
        · exact .inl rfl
        · exact .inr (h.back_isDigit ds hb c hc)
  rcases hd with rfl | hd
  · rfl
  · simp [Duration.ne_of_isDigit (m := 'e') rfl hd, Duration.ne_of_isDigit (m := 'E') rfl hd]

theorem Proper.split_exponent (h : n.Proper) :
    Text.splitAtFirst (fun c => c = 'e' || c = 'E') (n.mantissa ++ n.exponent) =
      (n.mantissa, n.power.map fun p => (if p.1 then '-' else '+') :: p.2) := by
  unfold exponent
  cases n.power with
  | none =>
    rw [Option.elim_none, List.append_nil, Option.map_none]
    exact Text.splitAtFirst_of_all fun c => h.not_power_of_mem_mantissa
  | some p => exact Text.splitAtFirst_append (fun c => h.not_power_of_mem_mantissa) rfl _

theorem Proper.not_padded (h : n.Proper) :
    (decide (1 < (asciiValues n.front).length) &&
      decide ((asciiValues n.front).head? = some 0)) = false := by
  obtain ⟨c, cs, hc, hdigit⟩ := h.exists_front
  by_cases h0 : c = '0'
  · have hone := h.head (by rw [hc, h0, List.head?_cons])
    rw [hone]
    rfl
  · have hb := Text.isDigit_iff.mp hdigit
    have hne : c.toNat - 48 ≠ 0 := by
      intro hz
      exact h0 (Char.toNat_inj.mp (show c.toNat = 48 by omega))
    rw [hc, asciiValues, List.map_cons, List.head?_cons]
    simp [hne]

theorem wholeNumber?_of_isDigit (negative : Bool) {ds : List Char} (hne : ds ≠ [])
    (h : ∀ c ∈ ds, c.isDigit = true) :
    Text.wholeNumber? (Text.plainDigits? Text.asciiDigit?)
        ((if negative then '-' else '+') :: ds) =
      some (signed negative (ofDigits (asciiValues ds))) := by
  have hs : Text.splitSign ((if negative then '-' else '+') :: ds) = (negative, ds) := by
    cases negative <;> rfl
  rw [Text.wholeNumber?, hs]
  dsimp only
  rw [Text.plainDigits?_of_isDigit hne h, Option.map_some]

/-- **A numeral is read for what it spells.** -/
theorem number?_chars (h : n.Proper) : number? n.chars = some n.value := by
  unfold number?
  split
  next negative body hsign =>
  obtain ⟨rfl, rfl⟩ := Prod.mk.inj (hsign.symm.trans h.sign)
  rw [h.split_exponent]
  dsimp only
  rw [h.split_mantissa]
  dsimp only
  rw [Text.plainDigits?_of_isDigit h.front_ne_nil h.front_isDigit]
  simp only [Option.bind_eq_bind, Option.bind_some, h.not_padded, Bool.false_eq_true, if_false]
  unfold value parts
  cases hb : n.back with
  | none =>
    cases hp : n.power with
    | none => rfl
    | some p =>
      have hw := wholeNumber?_of_isDigit p.1 (h.power_ne_nil p hp)
        (h.power_isDigit p hp)
      simp only [Option.map_some, hw]
      rfl
  | some ds =>
    have hd := Text.plainDigits?_of_isDigit (h.back_ne_nil ds hb) (h.back_isDigit ds hb)
    cases hp : n.power with
    | none =>
      simp only [hd]
      rfl
    | some p =>
      have hw := wholeNumber?_of_isDigit p.1 (h.power_ne_nil p hp)
        (h.power_isDigit p hp)
      simp only [Option.map_some, hd, hw]
      rfl

/-- All digits. -/
def digits (n : Numeral) : List Char := n.front ++ n.back.getD []

theorem coefficient_parts (n : Numeral) :
    n.parts.coefficient = ofDigits (asciiValues n.digits) := by
  unfold Text.DecimalParts.coefficient parts digits
  rw [Text.asciiValues_append]
  cases n.back <;> rfl

theorem scale_parts (n : Numeral) :
    n.parts.scale = (n.power.elim 0 fun power => signed power.1 (ofDigits (asciiValues power.2))) -
      ((n.back.getD []).length : ℤ) := by
  unfold Text.DecimalParts.scale parts
  cases n.back with
  | none => rfl
  | some ds =>
    rw [Option.elim_some, Text.length_asciiValues]
    rfl

end Numeral

/-! ### Floating point values -/

section

open Decimal

variable {d : DecimalDigits} {negative : Bool}

/-- The characters are a numeral that spells a decimal with a point or an exponent. -/
def Spells (negative : Bool) (d : DecimalDigits) (cs : List Char) : Prop :=
  ∃ n : Numeral, n.Proper ∧ n.chars = (if negative then ['-'] else []) ++ cs ∧
    n.value = .float (Binary64.ofDecimal negative n.parts) ∧
    (n.parts.coefficient : ℚ) * (10 : ℚ) ^ n.parts.scale = d.value ∧
    (n.parts.scale = d.exponent + 1 - d.digits.length ∨ n.parts.scale = -1)

theorem spells_pointed {front back : List Char} (hf : front ≠ [])
    (hfd : ∀ c ∈ front, c.isDigit = true) (hh : front.head? = some '0' → front = ['0'])
    (hb : back ≠ []) (hbd : ∀ c ∈ back, c.isDigit = true)
    (hv : (ofDigits (asciiValues (front ++ back)) : ℚ) * (10 : ℚ) ^ (-(back.length : ℤ)) = d.value)
    (hs : -(back.length : ℤ) = d.exponent + 1 - d.digits.length ∨ -(back.length : ℤ) = -1) :
    Spells negative d (front ++ '.' :: back) := by
  let n : Numeral := ⟨negative, front, some back, none⟩
  have hscale : n.parts.scale = -(back.length : ℤ) := by
    rw [Numeral.scale_parts]
    simp [n]
  have hproper : n.Proper :=
    { front_ne_nil := hf
      front_isDigit := hfd
      head := hh
      back_ne_nil := by
        rintro ds ⟨⟩
        exact hb
      back_isDigit := by
        rintro ds ⟨⟩
        exact hbd
      power_ne_nil := by rintro p ⟨⟩
      power_isDigit := by rintro p ⟨⟩ }
  refine ⟨n, hproper, ?_, rfl, ?_, ?_⟩
  · simp [n, Numeral.chars, Numeral.mantissa, Numeral.exponent]
  · rw [Numeral.coefficient_parts, hscale]
    exact hv
  · rwa [hscale]

theorem isDigit_of_mem_zeros_append {t : ℕ} {cs : List Char} (h : ∀ c ∈ cs, c.isDigit = true) :
    ∀ c ∈ List.replicate t '0' ++ cs, c.isDigit = true := by
  intro c hc
  rcases List.mem_append.mp hc with hc | hc
  · rw [List.eq_of_mem_replicate hc]
    rfl
  · exact h c hc

theorem spells_below_one (h : d.Proper) (he : d.exponent < 0) :
    Spells negative d
      (['0'] ++ '.' :: (List.replicate (-d.exponent - 1).toNat '0' ++ d.digits)) := by
  have hlength : -((List.replicate (-d.exponent - 1).toNat '0' ++ d.digits).length : ℤ) =
      d.exponent + 1 - d.digits.length := by
    rw [List.length_append, List.length_replicate]
    omega
  refine spells_pointed (by decide) (List.forall_mem_singleton.mpr rfl) (fun _ => rfl) ?_
    (isDigit_of_mem_zeros_append h.isDigit) ?_ (.inl hlength)
  · exact List.append_ne_nil_of_right_ne_nil _ h.ne_nil
  · rw [hlength, show ['0'] = List.replicate 1 '0' from rfl, Text.ofDigits_zeros_append,
      Text.ofDigits_zeros_append]
    rfl

theorem spells_whole (h : d.Proper) (he : 0 ≤ d.exponent)
    (hw : d.digits.length ≤ d.exponent.toNat + 1) :
    Spells negative d (d.digits ++ List.replicate (d.exponent.toNat + 1 - d.digits.length) '0' ++
      '.' :: ['0']) := by
  refine spells_pointed (List.append_ne_nil_of_left_ne_nil h.ne_nil _) ?_ ?_ (by decide)
    (List.forall_mem_singleton.mpr rfl) ?_ (.inr rfl)
  · intro c hc
    rcases List.mem_append.mp hc with hc | hc
    · exact h.isDigit c hc
    · rw [List.eq_of_mem_replicate hc]
      rfl
  · intro hh
    rw [List.head?_append_of_ne_nil _ h.ne_nil] at hh
    obtain ⟨hd, he0⟩ := h.head hh
    rw [hd, he0]
    rfl
  · have hzeros : d.digits ++ List.replicate (d.exponent.toNat + 1 - d.digits.length) '0' ++ ['0'] =
        d.digits ++ List.replicate (d.exponent.toNat + 1 - d.digits.length + 1) '0' := by
      rw [List.append_assoc, List.replicate_succ']
    have hexponent : d.exponent + 1 - d.digits.length =
        ((d.exponent.toNat + 1 - d.digits.length + 1 : ℕ) : ℤ) + -1 := by omega
    rw [hzeros, Text.ofDigits_append_zeros, DecimalDigits.value, hexponent,
      zpow_add₀ (by norm_num), zpow_natCast, Nat.cast_mul, Nat.cast_pow]
    simp only [List.length_singleton, Nat.cast_one, Nat.cast_ofNat]
    ring

theorem spells_divided (h : d.Proper) (he : 0 ≤ d.exponent)
    (hw : d.exponent.toNat + 1 < d.digits.length) :
    Spells negative d (d.digits.take (d.exponent.toNat + 1) ++
      '.' :: d.digits.drop (d.exponent.toNat + 1)) := by
  have hlength : -((d.digits.drop (d.exponent.toNat + 1)).length : ℤ) =
      d.exponent + 1 - d.digits.length := by
    rw [List.length_drop]
    omega
  refine spells_pointed ?_ (fun c hc => h.isDigit c (List.mem_of_mem_take hc)) ?_ ?_
    (fun c hc => h.isDigit c (List.mem_of_mem_drop hc)) ?_ (.inl hlength)
  · exact List.take_eq_nil_iff.not.mpr (by simp [h.ne_nil])
  · intro hh
    rw [List.head?_take, if_neg (by omega)] at hh
    rw [(h.head hh).1] at hw
    simp at hw
  · exact List.drop_eq_nil_iff.not.mpr (by omega)
  · rw [List.take_append_drop, hlength]
    rfl

theorem spells_positional (h : d.Proper) : Spells negative d (positional d) := by
  unfold positional
  split
  · next he => exact spells_below_one h he
  · next he =>
    dsimp only
    by_cases hw : d.digits.length ≤ d.exponent.toNat + 1
    · have hs : Spells negative d _ := spells_whole h (by omega) hw
      rw [List.take_of_length_le hw, List.drop_of_length_le hw]
      exact hs
    · have hs : Spells negative d _ := spells_divided h (by omega) (by omega)
      have hne : (d.digits.drop (d.exponent.toNat + 1)).isEmpty = false := by
        simp
        omega
      rw [Nat.sub_eq_zero_of_le (by omega), hne, List.replicate_zero, List.append_nil]
      exact hs

theorem ofDigits_padded (width m : ℕ) : ofDigits (asciiValues (padded width m)) = m := by
  unfold padded
  rw [Text.ofDigits_zeros_append, Text.ofDigits_toDigits]

theorem spells_scientific (h : d.Proper) : Spells negative d (scientific 2 d) := by
  obtain ⟨ds, e⟩ := d
  obtain ⟨c, cs, rfl⟩ := List.exists_cons_of_ne_nil h.ne_nil
  let n : Numeral :=
    ⟨negative, [c], if cs.isEmpty then none else some cs, some (decide (e < 0), padded 2 e.natAbs)⟩
  have hback : n.back.getD [] = cs := by
    cases cs <;> rfl
  have hscale : n.parts.scale = e + 1 - ((c :: cs).length : ℤ) := by
    rw [Numeral.scale_parts, hback]
    simp only [n, Option.elim_some, ofDigits_padded, Text.signed_natAbs, List.length_cons]
    omega
  have hproper : n.Proper :=
    { front_ne_nil := List.cons_ne_nil c []
      front_isDigit := by
        intro c' hc'
        exact h.isDigit c' (List.mem_cons.mpr (.inl (List.mem_singleton.mp hc')))
      head := fun hh => congrArg (fun c => [c]) (Option.some.inj hh)
      back_ne_nil := by
        intro ds hds
        cases cs with
        | nil => cases hds
        | cons c' cs =>
          cases hds
          exact List.cons_ne_nil c' cs
      back_isDigit := by
        intro ds hds c' hc'
        cases cs with
        | nil => cases hds
        | cons c'' cs =>
          cases hds
          exact h.isDigit c' (List.mem_cons_of_mem c hc')
      power_ne_nil := by
        rintro p ⟨⟩
        exact List.append_ne_nil_of_right_ne_nil _ Nat.toDigits_ne_nil
      power_isDigit := by
        rintro p ⟨⟩
        exact isDigit_of_mem_zeros_append fun c => Text.isDigit_of_mem_toDigits }
  refine ⟨n, hproper, ?_, ?_, ?_, .inl hscale⟩
  · cases cs <;> simp [n, Numeral.chars, Numeral.mantissa, Numeral.exponent, scientific]
  · simp [n, Numeral.value]
  · rw [Numeral.coefficient_parts, hscale, Numeral.digits, hback]
    rfl

theorem spells_magnitude (code : Fin finiteCodes) :
    Spells negative (shortest code) (Layout.json.magnitude code) := by
  have h := (decimalCode_shortest code.isLt).1
  unfold Layout.magnitude
  dsimp only
  split
  · exact spells_positional h
  · exact spells_scientific h

/-- **A finite value is read back from its text.** -/
theorem exists_numeral_float (negative : Bool) (code : Fin finiteCodes) :
    ∃ n : Numeral, n.Proper ∧ n.chars = (Layout.json.text (.finite negative code)).toList ∧
      n.value = .float (.finite negative code) := by
  obtain ⟨-, hlow, hhigh, hreads⟩ := decimalCode_shortest code.isLt
  have hspells : Spells negative (shortest code) _ := spells_magnitude code
  obtain ⟨n, hproper, hchars, hvalue, hnumber, hscale⟩ := hspells
  refine ⟨n, hproper, ?_, ?_⟩
  · rw [hchars, Layout.text, String.toList_ofList]
  · have hcode := hreads _ _ hnumber (by omega) (by omega)
    rw [hvalue, Binary64.ofDecimal, hcode, Binary64.ofCode, dif_pos code.isLt]

end

/-! ### Whole numbers -/

theorem toList_toString_int (m : ℤ) :
    (toString m).toList = (if m < 0 then ['-'] else []) ++ Nat.toDigits 10 m.natAbs := by
  cases m with
  | ofNat k =>
    have hk : ¬ Int.ofNat k < 0 := (Int.natCast_nonneg k).not_gt
    rw [if_neg hk]
    exact Duration.toList_toString_of_nonneg (Int.natCast_nonneg k)
  | negSucc k =>
    have hk : (toString (k + 1)).toList = Nat.toDigits 10 (k + 1) := by
      rw [Nat.toString_eq_ofList_toDigits, String.toList_ofList]
    rw [if_pos (Int.negSucc_lt_zero k)]
    change ("-" ++ toString (k + 1)).toList = _
    rw [String.toList_append, hk]
    rfl

/-- **A whole number is read back from its text.** -/
theorem exists_numeral_int (m : ℤ) :
    ∃ n : Numeral, n.Proper ∧ n.chars = (toString m).toList ∧ n.value = .int m := by
  let n : Numeral := ⟨decide (m < 0), Nat.toDigits 10 m.natAbs, none, none⟩
  have hproper : n.Proper :=
    { front_ne_nil := Nat.toDigits_ne_nil
      front_isDigit := fun c => Text.isDigit_of_mem_toDigits
      head := by
        intro hh
        rcases Nat.eq_zero_or_pos m.natAbs with h0 | hpos
        · simp only [n, h0]
          rfl
        · exact absurd hh (Text.head?_toDigits_ne_zero hpos)
      back_ne_nil := by rintro ds ⟨⟩
      back_isDigit := by rintro ds ⟨⟩
      power_ne_nil := by rintro p ⟨⟩
      power_isDigit := by rintro p ⟨⟩ }
  refine ⟨n, hproper, ?_, ?_⟩
  · rw [toList_toString_int]
    simp [n, Numeral.chars, Numeral.mantissa, Numeral.exponent]
  · simp only [n, Numeral.value, Option.isNone_none, Bool.and_self, if_true,
      Text.ofDigits_toDigits, Text.signed_natAbs]

/-! ### Words -/

theorem Numeral.Proper.exists_digit {n : Numeral} (h : n.Proper) :
    ∃ c cs, c.isDigit = true ∧ (n.chars = c :: cs ∨ n.chars = '-' :: c :: cs) := by
  obtain ⟨c, cs, hc, hdigit⟩ := h.exists_front
  unfold Numeral.chars Numeral.mantissa
  rw [hc]
  cases n.negative with
  | true => exact ⟨c, _, hdigit, .inr rfl⟩
  | false => exact ⟨c, _, hdigit, .inl rfl⟩

/-- No numeral is one of the names. -/
theorem word?_chars {n : Numeral} (h : n.Proper) : word? n.chars = some n.value := by
  obtain ⟨c, cs, hdigit, hchars⟩ := h.exists_digit
  have hne : ∀ (name : String) (a : Char) (rest : List Char), name.toList = a :: rest →
      a.isDigit = false → rest.head?.any Char.isDigit = false →
      String.ofList n.chars ≠ name := by
    rintro name a rest hname ha hrest rfl
    rw [String.toList_ofList] at hname
    rcases hchars with hc | hc
    · obtain ⟨rfl, -⟩ := List.cons.inj (hc.symm.trans hname)
      rw [ha] at hdigit
      cases hdigit
    · obtain ⟨rfl, rfl⟩ := List.cons.inj (hc.symm.trans hname)
      exact Bool.noConfusion (hdigit.symm.trans hrest)
  unfold word?
  split
  · next hs => exact absurd hs (hne _ _ _ rfl rfl rfl)
  · next hs => exact absurd hs (hne _ _ _ rfl rfl rfl)
  · next hs => exact absurd hs (hne _ _ _ rfl rfl rfl)
  · next hs => exact absurd hs (hne _ _ _ rfl rfl rfl)
  · next hs => exact absurd hs (hne _ _ _ rfl rfl rfl)
  · next hs => exact absurd hs (hne _ _ _ rfl rfl rfl)
  · exact Numeral.number?_chars h

end RhythmTree.Document.Json
