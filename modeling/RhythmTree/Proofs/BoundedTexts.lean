import RhythmTree.Duration.Bounded
import RhythmTree.Proofs.DurationPairs

/-!
# Durations in bounded texts

Whole numbers have bounded texts, so a duration is written only if its numerator and denominator are
short, and a text is read only if the numbers in it are. Written and read again a duration stays the
same. Of all its forms the pairs of whole numbers are always read, the texts only if they are short:
a short duration has long texts too.

* `isShort_append_cons`: the numbers of a text lie on either side of a mark.
* `write_eq_ok_iff`, `write_eq_error`: **a duration is written exactly if it is short.**
* `ofText_eq_ok_iff`: a text is read exactly if it is short and denotes a duration.
* `bounded_forms_agree`: **a duration is the same in all its forms that are short enough, and known
  by its text.**
* `not_forall_forms_agree`: neither all durations nor all their texts are short enough.
-/

namespace RhythmTree

/-! ### Short texts -/

namespace Text

variable {c : Char} {n : ℕ} {before cs after : List Char}

theorem isShort_ofChars (cs : List Char) : (ofChars cs).isShort =
    (numerals cs).all fun numeral => decide ((digitValues numeral).length ≤ maxDigits) := by
  rw [isShort, chars?_ofChars]

/-- A character that belongs to no number parts the numbers on its two sides. -/
theorem isShort_append_cons (h : isGrouped c = false) (front back : List Char) :
    (ofChars (front ++ c :: back)).isShort =
      ((ofChars front).isShort && (ofChars back).isShort) := by
  have hc : (!isGrouped c) = true := by rw [h, Bool.not_false]
  rw [isShort_ofChars, isShort_ofChars, isShort_ofChars, numerals,
    List.splitOnP_append_cons front back hc, List.all_append, numerals, numerals]

theorem isGrouped_of_isBlank (h : isBlank c = true) : isGrouped c = false := by
  have hu : c ≠ '_' := by
    rintro rfl
    cases h
  rw [isGrouped, isDecimal, digitValue?_blank h, decide_eq_false hu]
  rfl

theorem isShort_of_isBlank (h : ∀ c ∈ cs, isBlank c = true) : (ofChars cs).isShort = true := by
  induction cs with
  | nil => rfl
  | cons c cs ih =>
    have hc : isGrouped c = false := isGrouped_of_isBlank (h c List.mem_cons_self)
    have hcs := ih fun d hd => h d (List.mem_cons_of_mem c hd)
    have hcut := isShort_append_cons hc [] cs
    rw [hcs, Bool.and_true] at hcut
    exact hcut

/-- Blanks at the ends do not make a text longer. -/
theorem isShort_between_blanks (h : ∀ c ∈ before ++ after, isBlank c = true) :
    (ofChars (before ++ (cs ++ after))).isShort = (ofChars cs).isShort := by
  have hbefore : ∀ c ∈ before, isBlank c = true := fun c hc => h c (List.mem_append_left _ hc)
  have hafter : ∀ c ∈ after, isBlank c = true := fun c hc => h c (List.mem_append_right _ hc)
  have hback : (ofChars (cs ++ after)).isShort = (ofChars cs).isShort := by
    cases after with
    | nil => rw [List.append_nil]
    | cons c after =>
      rw [isShort_append_cons (isGrouped_of_isBlank (hafter c List.mem_cons_self)),
        isShort_of_isBlank fun d hd => hafter d (List.mem_cons_of_mem c hd), Bool.and_true]
  rcases List.eq_nil_or_concat before with rfl | ⟨front, c, rfl⟩
  · exact hback
  · have hc : c ∈ front.concat c := by simp
    rw [List.concat_eq_append, List.append_assoc, List.singleton_append,
      isShort_append_cons (isGrouped_of_isBlank (hbefore c hc)),
      isShort_of_isBlank fun d hd => hbefore d (by simp [hd]), Bool.true_and, hback]

theorem length_toDigits_le_maxDigits_iff :
    (Nat.toDigits 10 n).length ≤ maxDigits ↔ n < 10 ^ maxDigits :=
  Nat.length_toDigits_le_iff (by decide) (by decide)

/-- A number alone is short if it is below the bound. -/
theorem isShort_toDigits : (ofChars (Nat.toDigits 10 n)).isShort = true ↔ n < 10 ^ maxDigits := by
  have hvalue : ∀ c ∈ Nat.toDigits 10 n, (digitValue? c).isSome = true := by
    intro c hc
    rw [digitValue?_of_isDigit (isDigit_of_mem_toDigits hc)]
    rfl
  have hone : numerals (Nat.toDigits 10 n) = [Nat.toDigits 10 n] := by
    refine List.splitOnP_eq_singleton fun c hc => ?_
    rw [isGrouped, isDecimal, hvalue c hc]
    rfl
  have hlength : (digitValues (Nat.toDigits 10 n)).length = (Nat.toDigits 10 n).length :=
    List.filterMap_length_eq_length.mpr hvalue
  rw [isShort_ofChars, hone, List.all_cons, List.all_nil, Bool.and_true, decide_eq_true_iff,
    hlength, length_toDigits_le_maxDigits_iff]

theorem isShort_slash {m : ℕ} :
    (ofChars (Nat.toDigits 10 n ++ '/' :: Nat.toDigits 10 m)).isShort = true ↔
      n < 10 ^ maxDigits ∧ m < 10 ^ maxDigits := by
  have hslash : isGrouped '/' = false := rfl
  rw [isShort_append_cons hslash, Bool.and_eq_true, isShort_toDigits, isShort_toDigits]

end Text

namespace Duration

open Text (maxDigits isBlank)

variable {d : Duration} {t : Text} {n : ℕ} {s : String}

/-! ### Writing -/

/-- The numerator and the denominator of a duration in lowest terms can be written. -/
def IsShort (d : Duration) : Prop :=
  d.value.num < 10 ^ maxDigits ∧ d.value.den < 10 ^ maxDigits

theorem exists_num_eq (d : Duration) : ∃ a : ℕ, d.value.num = a :=
  Int.eq_ofNat_of_zero_le (Rat.num_nonneg.mpr d.nonneg)

theorem isShort_iff_of_num_eq {a : ℕ} (h : d.value.num = a) :
    d.IsShort ↔ a < 10 ^ maxDigits ∧ d.value.den < 10 ^ maxDigits := by
  rw [IsShort, h]
  exact and_congr_left' (by exact_mod_cast Iff.rfl)

theorem writeInt_of_lt (h : n < 10 ^ maxDigits) : writeInt n = .ok (toString n) :=
  if_pos (Text.length_toDigits_le_maxDigits_iff.mpr h)

theorem writeInt_of_not_lt (h : ¬ n < 10 ^ maxDigits) : writeInt n = .error .tooManyDigits :=
  if_neg fun hl => h (Text.length_toDigits_le_maxDigits_iff.mp hl)

theorem write_of_isShort (h : d.IsShort) : d.write = .ok d.text := by
  obtain ⟨a, ha⟩ := exists_num_eq d
  obtain ⟨habove, hbelow⟩ := (isShort_iff_of_num_eq ha).mp h
  rw [write, text, ratText, ha, writeInt_of_lt habove, writeInt_of_lt hbelow]
  by_cases hd : d.value.den = 1
  · rw [if_pos hd]
    exact if_pos hd
  · rw [if_neg hd]
    exact if_neg hd

/-- A duration that is not short has no text. -/
theorem write_eq_error (h : ¬ d.IsShort) : d.write = .error .tooManyDigits := by
  obtain ⟨a, ha⟩ := exists_num_eq d
  rw [isShort_iff_of_num_eq ha] at h
  rw [write, ha]
  by_cases habove : a < 10 ^ maxDigits
  · have hbelow : ¬ d.value.den < 10 ^ maxDigits := fun hb => h ⟨habove, hb⟩
    have hd : d.value.den ≠ 1 := by
      intro hd
      rw [hd] at hbelow
      exact hbelow (Nat.one_lt_pow (by decide) (by decide))
    rw [writeInt_of_lt habove, writeInt_of_not_lt hbelow]
    exact if_neg hd
  · rw [writeInt_of_not_lt habove]
    rfl

/-- **A duration is written exactly if it is short.** -/
theorem write_eq_ok_iff : d.write = .ok s ↔ d.IsShort ∧ s = d.text := by
  by_cases h : d.IsShort
  · rw [write_of_isShort h, Except.ok.injEq, eq_comm, and_iff_right h]
  · rw [write_eq_error h]
    exact iff_of_false nofun fun hs => h hs.1

/-- A duration is short if its text is. -/
theorem isShort_text (d : Duration) : (Text.ofString d.text).isShort = true ↔ d.IsShort := by
  obtain ⟨a, ha⟩ := exists_num_eq d
  rw [isShort_iff_of_num_eq ha, Text.ofString, text, toList_ratText d.nonneg, ha, Int.toNat_natCast]
  split
  · next hd =>
    have hone : 1 < 10 ^ maxDigits := Nat.one_lt_pow (by decide) (by decide)
    rw [Text.isShort_toDigits, hd, and_iff_left hone]
  · exact Text.isShort_slash

/-! ### Reading -/

/-- A text that is not short is malformed. -/
theorem ofText_eq_error (h : t.isShort = false) : ofText t = .error (.malformed (.text t)) := by
  rw [ofText, h]
  rfl

/-- **A text is read exactly if it is short and denotes a duration.** -/
theorem ofText_eq_ok_iff : ofText t = .ok d ↔ t.isShort = true ∧ t.Denotes d.value := by
  rw [← ofDocument_text_eq_ok_iff, ofText]
  cases t.isShort with
  | true => exact (and_iff_right rfl).symm
  | false => exact iff_of_false nofun fun h => absurd h.1 nofun

/-- A duration is read back from its text with blanks around it. -/
theorem ofText_write {before after : List Char} (h : ∀ c ∈ before ++ after, isBlank c = true)
    (hs : d.write = .ok s) :
    ofText (.ofChars (before ++ (s.toList ++ after))) = .ok d := by
  obtain ⟨hshort, rfl⟩ := write_eq_ok_iff.mp hs
  refine ofText_eq_ok_iff.mpr ⟨?_, d.denotes_text h⟩
  rw [Text.isShort_between_blanks h]
  exact (isShort_text d).mpr hshort

/-! ### All forms of a duration -/

theorem isShort_iff {a b : ℕ} (hb : 0 < b) (hc : a.Coprime b) (h : d.value = a / b) :
    d.IsShort ↔ a < 10 ^ maxDigits ∧ b < 10 ^ maxDigits := by
  have hb' : (0 : ℤ) < b := Int.natCast_pos.mpr hb
  have hnum := Rat.num_div_eq_of_coprime (a := a) (b := b) hb' hc
  have hden := Rat.den_div_eq_of_coprime (a := a) (b := b) hb' hc
  push_cast at hnum hden
  rw [← h] at hnum hden
  rw [isShort_iff_of_num_eq hnum, Int.natCast_inj.mp hden]

/-- **A duration is the same in all its forms that are short enough, and known by its text.** -/
theorem bounded_forms_agree :
    (∀ d : Duration, d.IsShort → ∃ s, d.write = .ok s ∧ ∀ before after : List Char,
        (∀ c ∈ before ++ after, isBlank c = true) →
          ofText (.ofChars (before ++ (s.toList ++ after))) = .ok d) ∧
      (∀ d : Duration, ¬ d.IsShort → ∃ e, d.write = .error e ∧ e.category = .value) ∧
      (∀ (d e : Duration) (s : String), d.write = .ok s → e.write = .ok s → d = e) ∧
      ∀ n m : ℤ, m ≠ 0 → 0 ≤ (n / m : ℚ) → ∃ d : Duration, d.value = n / m ∧
        (∀ n' m' : ℤ, m' ≠ 0 → (n' / m' : ℚ) = n / m →
          ofDocument (.list [.int n', .int m']) = .ok d ∧
            ofDocument (.pair (.int n') (.int m')) = .ok d) ∧
        (∀ t : Text, t.Denotes (n / m) → t.isShort = true → ofText t = .ok d) ∧
        (∀ t : Text, t.Denotes (n / m) → t.isShort = false → ∃ e, ofText t = .error e ∧
          e.category = .value ∧ e.message = "Invalid duration: " ++ t.quote) ∧
        ∃ a b : ℕ, 0 < b ∧ a.Coprime b ∧ (n / m : ℚ) = a / b ∧
          (d.IsShort ↔ a < 10 ^ maxDigits ∧ b < 10 ^ maxDigits) ∧
          (d.IsShort →
            d.write = .ok (if b = 1 then toString a else toString a ++ "/" ++ toString b)) := by
  refine ⟨fun d hd => ?_, fun d hd => ⟨_, write_eq_error hd, rfl⟩, fun d e s hd he => ?_, ?_⟩
  · exact ⟨d.text, write_of_isShort hd, fun _ _ h => ofText_write h (write_of_isShort hd)⟩
  · obtain ⟨-, rfl⟩ := write_eq_ok_iff.mp hd
    exact text_injective (write_eq_ok_iff.mp he).2
  · intro n m hm h
    have hpair : ∀ n' m' : ℤ, m' ≠ 0 → (n' / m' : ℚ) = n / m →
        ofPair (.int n') (.int m') = .ok ⟨n / m, h⟩ := by
      intro n' m' hm' hq
      exact ofPair_eq_ok_iff.mpr ⟨n', m', rfl, rfl, hm', hq.symm⟩
    refine ⟨⟨n / m, h⟩, rfl, fun n' m' hm' hq => ⟨hpair n' m' hm' hq, hpair n' m' hm' hq⟩,
      fun t ht hs => ofText_eq_ok_iff.mpr ⟨hs, ht⟩,
      fun t _ hs => ⟨_, ofText_eq_error hs, rfl, rfl⟩, ?_⟩
    obtain ⟨a, b, hb, hc, hq, htext⟩ := exists_text_eq ⟨n / m, h⟩
    exact ⟨a, b, hb, hc, hq, isShort_iff hb hc hq, fun hd => htext ▸ write_of_isShort hd⟩

theorem bounded_forms_agree_threeSixteenths :
    Duration.write ⟨3 / 16, by norm_num⟩ = .ok "3/16" ∧
      ofText (Text.ofString "\u00A03/16\n") = .ok ⟨3 / 16, by norm_num⟩ ∧
      ofDocument (.list [.int (-6), .int (-32)]) = .ok ⟨3 / 16, by norm_num⟩ := by
  have hq : (3 / 16 : ℚ) = (3 : ℕ) / (16 : ℕ) := by norm_num
  have hten : 10 ^ 2 ≤ 10 ^ maxDigits := Nat.pow_le_pow_right (by decide) (by decide)
  have hshort : IsShort ⟨3 / 16, by norm_num⟩ :=
    (isShort_iff (by decide) (by decide) hq).mpr ⟨by omega, by omega⟩
  obtain ⟨hwrite, -, -, hforms⟩ := bounded_forms_agree
  have htext : Duration.text ⟨3 / 16, by norm_num⟩ = "3/16" := by decide +kernel
  refine ⟨(write_of_isShort hshort).trans (congrArg _ htext), ?_, ?_⟩
  · obtain ⟨s, hs, hread⟩ := hwrite _ hshort
    obtain rfl := (write_eq_ok_iff.mp hs).2
    have h := hread ['\u00A0'] ['\n'] (List.all_eq_true.mp rfl)
    rw [htext] at h
    exact h
  · obtain ⟨d, hd, hp, -⟩ := hforms (-6) (-32) (by decide) (by norm_num)
    have hd' : d = ⟨3 / 16, by norm_num⟩ := Duration.ext (by rw [hd]; norm_num)
    exact hd' ▸ (hp (-6) (-32) (by decide) rfl).1

/-- The least whole number that is not written. -/
def leastLong : ℕ := 10 ^ maxDigits

/-- A fraction that denotes one, with a numerator and a denominator that are not read. -/
def longOne : Text := .ofChars (Nat.toDigits 10 leastLong ++ '/' :: Nat.toDigits 10 leastLong)

theorem leastLong_pos : 0 < leastLong := Nat.pow_pos (by decide)

theorem denotes_longOne : longOne.Denotes 1 := by
  have hne : leastLong ≠ 0 := leastLong_pos.ne'
  have hone : Rat.divInt (leastLong : ℤ) leastLong = 1 := by
    rw [Rat.divInt_eq_div]
    exact div_self (by exact_mod_cast hne)
  refine ⟨[], Nat.toDigits 10 leastLong ++ '/' :: Nat.toDigits 10 leastLong, [], ?_, nofun, ?_⟩
  · rw [List.nil_append, List.append_nil, longOne]
  · rw [Text.writes_iff, ratioOfText?_slash, Option.bind_some, Ratio.value?, if_neg hne, hone]

/-- **Not every duration is written, and not every text of a duration is read.** -/
theorem not_forall_forms_agree :
    (¬ ∀ d : Duration, ∃ s, d.write = .ok s ∧ ofText (Text.ofString s) = .ok d) ∧
      ¬ ∀ (t : Text) (d : Duration), t.Denotes d.value → ofText t = .ok d := by
  constructor
  · intro h
    obtain ⟨s, hs, -⟩ := h (.ofNat leastLong)
    have hnum : (ofNat leastLong).value.num = leastLong := Rat.num_natCast _
    have hshort := (isShort_iff_of_num_eq hnum).mp (write_eq_ok_iff.mp hs).1
    exact Nat.lt_irrefl _ hshort.1
  · intro h
    obtain ⟨hshort, -⟩ := ofText_eq_ok_iff.mp (h longOne ⟨1, zero_le_one⟩ denotes_longOne)
    exact Nat.lt_irrefl _ (Text.isShort_slash.mp hshort).1

end Duration

end RhythmTree
