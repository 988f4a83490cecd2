import RhythmTree.Proofs.ShortestDecimals
import RhythmTree.Proofs.WrittenDurations

/-!
# The notation of rational numbers

A rational number is written as a fraction or as a decimal with an exponent. The notation is given
by its parts: signs, runs of digits, a point with digits behind it, an exponent. The reader takes a
text apart at the marks between the parts, which no digit is, and so finds the parts again that the
text has been put together from.

* `Writes`: the texts of the notation, each with the number that it denotes.
* `digits?_eq_some_iff`, `optionalRun?_eq_some_iff`: runs of digits.
* `decimal?_eq_some_iff`: **a decimal is read exactly if it is put together from its parts.**
* `writes_iff`: **the reader accepts exactly the texts of the notation, and reads what they denote.**
-/

namespace RhythmTree.Text

open Decimal (tenTo)

/-! ### The notation -/

/-- The number that digits denote in base ten, the first digit counting most. -/
def number (ns : List Nat) : Nat := Nat.ofDigits 10 ns.reverse

/-- One or more digits of any script, with single underscores between digits. -/
inductive Run : List Char → List Nat → Prop
  | last {c : Char} {n : Nat} : digitValue? c = some n → Run [c] [n]
  | next {c : Char} {n : Nat} {cs : List Char} {ns : List Nat} :
      digitValue? c = some n → Run cs ns → Run (c :: cs) (n :: ns)
  | apart {c : Char} {n : Nat} {cs : List Char} {ns : List Nat} :
      digitValue? c = some n → Run cs ns → Run (c :: '_' :: cs) (n :: ns)

/-- A run of digits or nothing. -/
inductive OptionalRun : List Char → List Nat → Prop
  | absent : OptionalRun [] []
  | run {cs : List Char} {ns : List Nat} : Run cs ns → OptionalRun cs ns

/-- A sign or nothing, with the factor that it stands for. -/
inductive Sign : List Char → Int → Prop
  | absent : Sign [] 1
  | plus : Sign ['+'] 1
  | minus : Sign ['-'] (-1)

/-- A point and perhaps digits behind it, or nothing. -/
inductive Point : List Char → List Nat → Prop
  | absent : Point [] []
  | point {cs : List Char} {ns : List Nat} : OptionalRun cs ns → Point ('.' :: cs) ns

/-- An exponent with its sign, or nothing. -/
inductive Power : List Char → Int → Prop
  | absent : Power [] 0
  | power {c : Char} {sign cs : List Char} {s : Int} {ns : List Nat} :
      c = 'e' ∨ c = 'E' → Sign sign s → Run cs ns → Power (c :: (sign ++ cs)) (s * number ns)

/-- The texts that write a rational number: two runs of digits with a slash between them, where the
second is not zero, or a decimal, with a digit in front of the point or right behind it. -/
inductive Writes : List Char → ℚ → Prop
  | fraction {sign front back : List Char} {s : Int} {ns ms : List Nat} :
      Sign sign s → Run front ns → Run back ms → number ms ≠ 0 →
        Writes (sign ++ (front ++ '/' :: back)) (s * number ns / number ms)
  | decimal {sign whole point power : List Char} {s e : Int} {ns fs : List Nat} :
      Sign sign s → OptionalRun whole ns → Point point fs → Power power e → ns ++ fs ≠ [] →
        Writes (sign ++ (whole ++ (point ++ power)))
          (s * (number ns + number fs / 10 ^ fs.length) * 10 ^ e)

section

variable {c : Char} {n : Nat} {s e : Int} {sign front back whole point power cs : List Char}
  {ns ms fs : List Nat}

/-! ### Digits -/

theorem ofDigits_eq_number (ns : List Nat) : ofDigits ns = number ns := by
  induction ns using List.reverseRecOn with
  | nil => rfl
  | append_singleton ns n ih =>
    rw [ofDigits_append, ih, number, number, List.reverse_append, List.reverse_singleton,
      List.singleton_append, Nat.ofDigits_cons, List.length_singleton, Nat.pow_one,
      Nat.add_comm]
    simp [ofDigits]

theorem Run.exists_cons (h : Run cs ns) : ∃ c n rest, cs = c :: rest ∧ digitValue? c = some n := by
  cases h with
  | last hc => exact ⟨_, _, _, rfl, hc⟩
  | next hc _ => exact ⟨_, _, _, rfl, hc⟩
  | apart hc _ => exact ⟨_, _, _, rfl, hc⟩

theorem ne_of_digitValue? {m : Char} (hc : digitValue? c = some n) (hm : digitValue? m = none) :
    c ≠ m := by
  rintro rfl
  rw [hc] at hm
  cases hm

theorem digits?_eq_some_iff : Duration.digits? cs = some ns ↔ Run cs ns := by
  unfold Duration.digits?
  constructor
  · intro h
    fun_induction groupedDigits? digitValue? cs generalizing ns with
    | case1 => cases h
    | case2 => cases h
    | case3 c digit hc => cases h; exact .last hc
    | case4 c digit hc rest ih =>
      obtain ⟨ms, hms, rfl⟩ := Option.map_eq_some_iff.mp h
      exact .apart hc (ih hms)
    | case5 c digit hc next rest _ ih =>
      obtain ⟨ms, hms, rfl⟩ := Option.map_eq_some_iff.mp h
      exact .next hc (ih hms)
  · intro h
    induction h with
    | last hc => rw [groupedDigits?, hc]
    | apart hc _ ih =>
      rw [groupedDigits?, hc]
      simp [ih]
    | next hc hr ih =>
      obtain ⟨d, m, rest, rfl, hd⟩ := hr.exists_cons
      rw [groupedDigits?, hc]
      dsimp only
      split
      · next hz => cases hz
      · next hz => exact absurd (List.cons.inj hz).1 (ne_of_digitValue? hd rfl)
      · next hz =>
        rw [← hz, ih]
        rfl

theorem optionalRun?_eq_some_iff :
    optionalRun? Duration.digits? cs = some ns ↔ OptionalRun cs ns := by
  rw [optionalRun?]
  cases cs with
  | nil =>
    constructor
    · intro h
      cases h
      exact .absent
    · intro h
      cases h with
      | absent => rfl
      | run hr => cases hr
  | cons c rest =>
    rw [List.isEmpty_cons, if_neg Bool.false_ne_true, digits?_eq_some_iff]
    constructor
    · exact .run
    · intro h
      cases h with
      | run hr => exact hr

/-! ### Marks -/

/-- All characters are digits or one of some marks. -/
def MadeOf (marks cs : List Char) : Prop := ∀ c ∈ cs, (∃ n, digitValue? c = some n) ∨ c ∈ marks

theorem MadeOf.append {marks : List Char} (h : MadeOf marks front) (h' : MadeOf marks back) :
    MadeOf marks (front ++ back) := by
  intro c hc
  rcases List.mem_append.mp hc with hc | hc
  · exact h c hc
  · exact h' c hc

theorem MadeOf.mono {marks marks' : List Char} (h : MadeOf marks cs) (hm : marks ⊆ marks') :
    MadeOf marks' cs := fun c hc => (h c hc).imp_right fun hc => hm hc

theorem Run.madeOf (h : Run cs ns) : MadeOf ['_'] cs := by
  induction h with
  | last hc =>
    intro c hm
    obtain rfl := List.mem_singleton.mp hm
    exact .inl ⟨_, hc⟩
  | next hc _ ih =>
    intro c hm
    rcases List.mem_cons.mp hm with rfl | hm
    · exact .inl ⟨_, hc⟩
    · exact ih c hm
  | apart hc _ ih =>
    intro c hm
    rcases List.mem_cons.mp hm with rfl | hm
    · exact .inl ⟨_, hc⟩
    · rcases List.mem_cons.mp hm with rfl | hm
      · exact .inr (List.mem_singleton_self _)
      · exact ih c hm

theorem OptionalRun.madeOf (h : OptionalRun cs ns) : MadeOf ['_'] cs := by
  cases h with
  | absent => exact fun c hc => absurd hc List.not_mem_nil
  | run hr => exact hr.madeOf

theorem Sign.madeOf (h : Sign sign s) : MadeOf ['+', '-'] sign := by
  intro c hc
  cases h <;> simp_all

theorem Point.madeOf (h : Point point fs) : MadeOf ['_', '.'] point := by
  cases h with
  | absent => exact fun c hc => absurd hc List.not_mem_nil
  | point hr =>
    intro c hc
    rcases List.mem_cons.mp hc with rfl | hc
    · exact .inr (by simp)
    · exact hr.madeOf.mono (by simp) c hc

theorem Power.madeOf (h : Power power e) : MadeOf ['_', 'e', 'E', '+', '-'] power := by
  cases h with
  | absent => exact fun c hc => absurd hc List.not_mem_nil
  | power hm hs hr =>
    intro c hc
    rcases List.mem_cons.mp hc with rfl | hc
    · exact .inr (by rcases hm with rfl | rfl <;> simp)
    · exact ((hs.madeOf.mono (by simp)).append (hr.madeOf.mono (by simp))) c hc

/-- No character is a mark that is neither a digit nor one of the marks that are there. -/
theorem MadeOf.free {marks : List Char} {mark : Char → Bool} (h : MadeOf marks cs)
    (hd : ∀ m, mark m = true → digitValue? m = none) (hm : (marks.all fun m => !mark m) = true) :
    ∀ c ∈ cs, mark c = false := by
  intro c hc
  rcases h c hc with ⟨n, hn⟩ | hc
  · by_contra ht
    rw [hd c (Bool.eq_true_of_not_eq_false ht)] at hn
    cases hn
  · exact (Bool.not_eq_true' _).mp (List.all_eq_true.mp hm c hc)

theorem digitValue?_mark {m mark : Char} (hd : digitValue? mark = none)
    (h : decide (m = mark) = true) : digitValue? m = none := by
  obtain rfl := of_decide_eq_true h
  exact hd

theorem digitValue?_power {m : Char} (h : (m = 'e' || m = 'E' : Bool) = true) :
    digitValue? m = none := by
  rcases Bool.or_eq_true_iff.mp h with h | h
  · exact digitValue?_mark rfl h
  · exact digitValue?_mark rfl h

theorem madeOf_decimal (hw : OptionalRun whole ns) (hp : Point point fs) (hpw : Power power e) :
    MadeOf ['_', '.', 'e', 'E', '+', '-'] (whole ++ (point ++ power)) := by
  have hw' : MadeOf ['_', '.', 'e', 'E', '+', '-'] whole := hw.madeOf.mono (by simp)
  have hp' : MadeOf ['_', '.', 'e', 'E', '+', '-'] point := hp.madeOf.mono (by simp)
  exact hw'.append (hp'.append (hpw.madeOf.mono (by simp)))

/-! ### Signs -/

/-- A sign is split off if what follows it does not start with another one. -/
theorem Sign.splitSign_append (h : Sign sign s) (hb : ∀ c ∈ cs.head?, c ≠ '+' ∧ c ≠ '-') :
    ∃ negative, splitSign (sign ++ cs) = (negative, cs) ∧ ∀ n, signed negative n = s * n := by
  cases h with
  | plus => exact ⟨false, rfl, fun n => (Int.one_mul n).symm⟩
  | minus => exact ⟨true, rfl, fun n => (Int.neg_one_mul n).symm⟩
  | absent =>
    refine ⟨false, ?_, fun n => (Int.one_mul n).symm⟩
    cases cs with
    | nil => rfl
    | cons c rest =>
      obtain ⟨hp, hm⟩ := hb c rfl
      rw [List.nil_append]
      unfold splitSign
      split
      · next hc => exact absurd (List.cons.inj hc).1 hm
      · next hc => exact absurd (List.cons.inj hc).1 hp
      · rfl

theorem exists_of_splitSign {negative : Bool} (h : splitSign cs = (negative, back)) :
    ∃ sign s, Sign sign s ∧ cs = sign ++ back ∧ ∀ n, signed negative n = s * n := by
  unfold splitSign at h
  split at h
  · cases h
    exact ⟨_, _, .minus, rfl, fun n => (Int.neg_one_mul n).symm⟩
  · cases h
    exact ⟨_, _, .plus, rfl, fun n => (Int.one_mul n).symm⟩
  · cases h
    exact ⟨_, _, .absent, rfl, fun n => (Int.one_mul n).symm⟩

theorem Run.not_sign (h : Run cs ns) (rest : List Char) :
    ∀ c ∈ (cs ++ rest).head?, c ≠ '+' ∧ c ≠ '-' := by
  obtain ⟨d, n, cs, rfl, hd⟩ := h.exists_cons
  intro c hc
  obtain rfl := Option.some.inj hc
  exact ⟨ne_of_digitValue? hd rfl, ne_of_digitValue? hd rfl⟩

theorem wholeNumber?_eq_some_iff :
    wholeNumber? Duration.digits? cs = some e ↔
      ∃ sign s back ns, Sign sign s ∧ Run back ns ∧ cs = sign ++ back ∧ e = s * number ns := by
  rw [wholeNumber?]
  constructor
  · cases hs : splitSign cs with
    | mk negative back =>
      intro h
      obtain ⟨ns, hns, rfl⟩ := Option.map_eq_some_iff.mp h
      obtain ⟨sign, s, hsign, rfl, hf⟩ := exists_of_splitSign hs
      exact ⟨sign, s, back, ns, hsign, digits?_eq_some_iff.mp hns, rfl,
        by rw [hf, ofDigits_eq_number]⟩
  · rintro ⟨sign, s, back, ns, hsign, hr, rfl, rfl⟩
    obtain ⟨negative, hs, hf⟩ := hsign.splitSign_append (List.append_nil back ▸ hr.not_sign [])
    rw [hs]
    dsimp only
    rw [digits?_eq_some_iff.mpr hr, Option.map_some, hf, ofDigits_eq_number]

/-! ### Decimals -/

/-- A mantissa is cut at its point. -/
theorem splitAtFirst_point (hw : OptionalRun whole ns) (hp : Point point fs) :
    ∃ back, splitAtFirst (· = '.') (whole ++ point) = (whole, back) ∧
      optionalRun? Duration.digits? (back.getD []) = some fs := by
  have hfree : ∀ c ∈ whole, decide (c = '.') = false :=
    hw.madeOf.free (fun m => digitValue?_mark rfl) rfl
  cases hp with
  | absent => exact ⟨none, by rw [List.append_nil, splitAtFirst_of_all hfree], rfl⟩
  | point hr =>
    exact ⟨_, splitAtFirst_append hfree rfl _, optionalRun?_eq_some_iff.mpr hr⟩

/-- A decimal is cut at the letter of its exponent. -/
theorem splitAtFirst_power (hm : MadeOf ['_', '.'] front) (hp : Power power e) :
    ∃ tail, splitAtFirst (fun c => c = 'e' || c = 'E') (front ++ power) = (front, tail) ∧
      tail.elim (some 0) (wholeNumber? Duration.digits?) = some e := by
  have hfree : ∀ c ∈ front, (c = 'e' || c = 'E' : Bool) = false :=
    hm.free (fun m => digitValue?_power) rfl
  cases hp with
  | absent => exact ⟨none, by rw [List.append_nil, splitAtFirst_of_all hfree], rfl⟩
  | power hl hs hr =>
    refine ⟨_, splitAtFirst_append hfree (by simpa using hl) _, ?_⟩
    exact wholeNumber?_eq_some_iff.mpr ⟨_, _, _, _, hs, hr, rfl, rfl⟩

/-- A decimal is read part by part. -/
theorem decimal?_eq {tail fraction : Option (List Char)}
    (hcs : splitAtFirst (fun c => c = 'e' || c = 'E') cs = (front, tail))
    (hfront : splitAtFirst (· = '.') front = (whole, fraction)) :
    decimal? Duration.digits? cs =
      (optionalRun? Duration.digits? whole).bind fun ns =>
        (optionalRun? Duration.digits? (fraction.getD [])).bind fun fs =>
          (tail.elim (some 0) (wholeNumber? Duration.digits?)).bind fun e =>
            if ns.isEmpty && fs.isEmpty then none else some ⟨ns, fs, e⟩ := by
  rw [decimal?, hcs]
  dsimp only
  rw [hfront]
  cases tail <;> rfl

theorem isEmpty_and_eq_false_iff : (ns.isEmpty && fs.isEmpty) = false ↔ ns ++ fs ≠ [] := by
  cases ns <;> simp

/-- **A decimal is read exactly if it is put together from its parts.** -/
theorem decimal?_eq_some_iff {parts : DecimalParts} :
    decimal? Duration.digits? cs = some parts ↔
      ∃ whole point power, cs = whole ++ (point ++ power) ∧ OptionalRun whole parts.whole ∧
        Point point parts.fraction ∧ Power power parts.exponent ∧
          parts.whole ++ parts.fraction ≠ [] := by
  constructor
  · intro h
    rcases hpower : splitAtFirst (fun c => c = 'e' || c = 'E') cs with ⟨mantissa, tail⟩
    rcases hpoint : splitAtFirst (· = '.') mantissa with ⟨whole, fraction⟩
    rw [decimal?_eq hpower hpoint] at h
    -- what the cuts left behind is put together again, first the mantissa and then the whole
    obtain ⟨ns, hw, h⟩ := Option.bind_eq_some_iff.mp h
    obtain ⟨fs, hf, h⟩ := Option.bind_eq_some_iff.mp h
    obtain ⟨e, he, h⟩ := Option.bind_eq_some_iff.mp h
    split at h
    · cases h
    next hne =>
    obtain rfl := Option.some.inj h
    have hmantissa : ∃ point, mantissa = whole ++ point ∧ Point point fs := by
      cases fraction with
      | none =>
        cases hf
        exact ⟨[], by rw [eq_of_splitAtFirst_none hpoint, List.append_nil], .absent⟩
      | some fraction =>
        obtain ⟨m, hm, hcut⟩ := exists_of_splitAtFirst hpoint
        obtain rfl := of_decide_eq_true hm
        exact ⟨_, hcut, .point (optionalRun?_eq_some_iff.mp hf)⟩
    have hcs : ∃ power, cs = mantissa ++ power ∧ Power power e := by
      cases tail with
      | none =>
        cases he
        exact ⟨[], by rw [eq_of_splitAtFirst_none hpower, List.append_nil], .absent⟩
      | some tail =>
        obtain ⟨m, hm, hcut⟩ := exists_of_splitAtFirst hpower
        obtain ⟨sign, s, back, ms, hs, hr, rfl, rfl⟩ := wholeNumber?_eq_some_iff.mp he
        exact ⟨_, hcut, .power (by simpa using hm) hs hr⟩
    obtain ⟨point, rfl, hp⟩ := hmantissa
    obtain ⟨power, rfl, hpw⟩ := hcs
    exact ⟨whole, point, power, List.append_assoc _ _ _, optionalRun?_eq_some_iff.mp hw, hp, hpw,
      isEmpty_and_eq_false_iff.mp (Bool.eq_false_iff.mpr hne)⟩
  · rintro ⟨whole, point, power, rfl, hw, hp, hpw, hne⟩
    obtain ⟨fraction, hpoint, hfraction⟩ := splitAtFirst_point hw hp
    have hm : MadeOf ['_', '.'] (whole ++ point) := (hw.madeOf.mono (by simp)).append hp.madeOf
    -- the cut at the exponent comes first, when the point is still inside of the mantissa
    obtain ⟨tail, hpower, htail⟩ := splitAtFirst_power hm hpw
    rw [List.append_assoc] at hpower
    rw [decimal?_eq hpower hpoint, optionalRun?_eq_some_iff.mpr hw, Option.bind_some, hfraction,
      Option.bind_some, htail, Option.bind_some, isEmpty_and_eq_false_iff.mpr hne]
    rfl

/-! ### Rational numbers -/

open Duration (Ratio)

theorem value?_fraction {negative : Bool} (hs : ∀ n, signed negative n = s * n) :
    Ratio.value? ⟨signed negative (ofDigits ns), ofDigits ms⟩ =
      if number ms = 0 then none else some (s * number ns / number ms : ℚ) := by
  rw [Ratio.value?, hs, ofDigits_eq_number, ofDigits_eq_number, Rat.divInt_eq_div]
  push_cast
  rfl

theorem value?_decimal {negative : Bool} (hs : ∀ n, signed negative n = s * n)
    (parts : DecimalParts) :
    Ratio.value? (Ratio.ofDecimal negative parts) =
      some ((s : ℚ) * (number parts.whole + number parts.fraction / 10 ^ parts.fraction.length) *
        10 ^ parts.exponent) := by
  have hten : tenTo (-parts.scale).toNat ≠ 0 := (Decimal.tenTo_pos _).ne'
  have hc : (parts.coefficient : ℚ) =
      10 ^ parts.fraction.length * number parts.whole + number parts.fraction := by
    rw [DecimalParts.coefficient, ofDigits_append, ofDigits_eq_number, ofDigits_eq_number]
    push_cast
    rfl
  rw [Ratio.value?, Ratio.ofDecimal, if_neg hten, hs, Rat.divInt_eq_div, Int.cast_mul,
    Int.cast_natCast, Int.cast_natCast, mul_div_assoc, Decimal.cast_decimal, hc, DecimalParts.scale,
    zpow_sub₀ (by norm_num), zpow_natCast]
  refine congrArg some ?_
  field_simp

theorem not_sign_decimal (hw : OptionalRun whole ns) (hp : Point point fs) (hne : ns ++ fs ≠ []) :
    ∀ c ∈ (whole ++ (point ++ power)).head?, c ≠ '+' ∧ c ≠ '-' := by
  cases hw with
  | run hr => exact hr.not_sign _
  | absent =>
    cases hp with
    | absent => exact absurd rfl hne
    | point _ =>
      intro c hc
      obtain rfl := Option.some.inj hc
      decide

theorem Writes.value? {q : ℚ} (h : Writes cs q) : (Ratio.ofText? cs).bind Ratio.value? = some q := by
  cases h with
  | @fraction sign front back s ns ms hs hn hm h0 =>
    obtain ⟨negative, hsplit, hf⟩ := hs.splitSign_append (hn.not_sign _)
    have hfree : ∀ c ∈ front, decide (c = '/') = false :=
      hn.madeOf.free (fun m => digitValue?_mark rfl) rfl
    have hslash : decide ('/' = '/') = true := rfl
    rw [Ratio.ofText?, hsplit]
    dsimp only
    rw [splitAtFirst_append hfree hslash]
    simp only [digits?_eq_some_iff.mpr hn, digits?_eq_some_iff.mpr hm, Option.bind_eq_bind,
      Option.bind_some, Option.pure_def]
    rw [value?_fraction hf, if_neg h0]
  | @decimal sign whole point power s e ns fs hs hw hp hpw hne =>
    obtain ⟨negative, hsplit, hf⟩ := hs.splitSign_append (not_sign_decimal hw hp hne)
    have hfree : ∀ c ∈ whole ++ (point ++ power), decide (c = '/') = false :=
      (madeOf_decimal hw hp hpw).free (fun m => digitValue?_mark rfl) rfl
    have hparts : decimal? Duration.digits? (whole ++ (point ++ power)) = some ⟨ns, fs, e⟩ :=
      decimal?_eq_some_iff.mpr ⟨whole, point, power, rfl, hw, hp, hpw, hne⟩
    rw [Ratio.ofText?, hsplit]
    dsimp only
    rw [splitAtFirst_of_all hfree]
    dsimp only
    rw [hparts, Option.map_some, Option.bind_some, value?_decimal hf]

theorem writes_of_value? {q : ℚ} (h : (Ratio.ofText? cs).bind Ratio.value? = some q) :
    Writes cs q := by
  obtain ⟨ratio, hr, hq⟩ := Option.bind_eq_some_iff.mp h
  rw [Ratio.ofText?] at hr
  rcases hs : splitSign cs with ⟨negative, body⟩
  obtain ⟨sign, s, hsign, rfl, hf⟩ := exists_of_splitSign hs
  rw [hs] at hr
  dsimp only at hr
  rcases hb : splitAtFirst (· = '/') body with ⟨front, _ | back⟩
  · rw [hb] at hr
    obtain ⟨parts, hparts, rfl⟩ := Option.map_eq_some_iff.mp hr
    obtain ⟨whole, point, power, rfl, hw, hp, hpw, hne⟩ := decimal?_eq_some_iff.mp hparts
    rw [value?_decimal hf] at hq
    obtain rfl := Option.some.inj hq
    exact .decimal hsign hw hp hpw hne
  · obtain ⟨m, hm, rfl⟩ := exists_of_splitAtFirst hb
    obtain rfl := of_decide_eq_true hm
    rw [hb] at hr
    obtain ⟨ns, hns, hr⟩ := Option.bind_eq_some_iff.mp hr
    obtain ⟨ms, hms, hr⟩ := Option.bind_eq_some_iff.mp hr
    obtain rfl := Option.some.inj hr
    rw [value?_fraction hf] at hq
    split at hq
    · cases hq
    · next h0 =>
      obtain rfl := Option.some.inj hq
      exact .fraction hsign (digits?_eq_some_iff.mp hns) (digits?_eq_some_iff.mp hms) h0

/-- **The reader accepts exactly the texts of the notation, and reads what they denote.** -/
theorem writes_iff {q : ℚ} : Writes cs q ↔ (Ratio.ofText? cs).bind Ratio.value? = some q :=
  ⟨Writes.value?, writes_of_value?⟩

end

end RhythmTree.Text
