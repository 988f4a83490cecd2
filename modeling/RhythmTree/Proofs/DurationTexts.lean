import RhythmTree.Proofs.RationalTexts

/-!
# Durations as texts

A stream may give a duration as a text. The text is a duration if it denotes a rational number that
is not negative, with blanks around it or none. Many texts denote one duration, which itself is
written in one way only.

* `Text.Denotes`: the texts that denote a number.
* `ofText?_eq_some_iff`: a text is read exactly if it denotes a duration.
* `reads_iff_denotes`: **what the texts of durations are, and the error of all others.**
* `denotes_text`, `exists_text_eq`: a duration's own text is one of them and in lowest terms.
-/

namespace RhythmTree

/-! ### Texts -/

namespace Text

/-- A text denotes a number if it writes it, with blanks in front and behind or none. -/
def Denotes (t : Text) (q : ℚ) : Prop :=
  ∃ before cs after, t = .ofChars (before ++ (cs ++ after)) ∧
    (∀ c ∈ before ++ after, isBlank c = true) ∧ Writes cs q

theorem eq_map_of_mapM_char? {symbols : List Symbol} {cs : List Char}
    (h : symbols.mapM Symbol.char? = some cs) : symbols = cs.map .char := by
  induction symbols generalizing cs with
  | nil =>
    cases h
    rfl
  | cons symbol symbols ih =>
    rw [List.mapM_cons] at h
    obtain ⟨c, hc, h⟩ := Option.bind_eq_some_iff.mp h
    obtain ⟨rest, hr, h⟩ := Option.bind_eq_some_iff.mp h
    cases h
    cases symbol with
    | half number => cases hc
    | char d =>
      cases hc
      rw [List.map_cons, ih hr]

theorem ofChars_of_chars? {t : Text} {cs : List Char} (h : t.chars? = some cs) :
    t = .ofChars cs :=
  congrArg Text.mk (eq_map_of_mapM_char? h)

theorem digitValue?_blank {m : Char} (h : isBlank m = true) : digitValue? m = none := by
  by_contra hm
  obtain ⟨n, hn⟩ := Option.ne_none_iff_exists'.mp hm
  rw [isBlank_of_digitValue? hn] at h
  cases h

/-- Inside of a written number there is no blank. -/
theorem Writes.not_blank {cs : List Char} {q : ℚ} (h : Writes cs q) :
    ∀ c ∈ cs, isBlank c = false := by
  have hmade : MadeOf ['_', '.', 'e', 'E', '+', '-', '/'] cs := by
    cases h with
    | fraction hs hn hm _ =>
      refine (hs.madeOf.mono (by simp)).append ((hn.madeOf.mono (by simp)).append ?_)
      intro c hc
      rcases List.mem_cons.mp hc with rfl | hc
      · exact .inr (by simp)
      · exact hm.madeOf.mono (by simp) c hc
    | decimal hs hw hp hpw _ =>
      exact (hs.madeOf.mono (by simp)).append ((madeOf_decimal hw hp hpw).mono (by simp))
  exact hmade.free (fun m => digitValue?_blank) rfl

theorem Writes.trim {before cs after : List Char} {q : ℚ} (h : Writes cs q)
    (hb : ∀ c ∈ before ++ after, isBlank c = true) :
    trim isBlank (before ++ (cs ++ after)) = cs :=
  trim_append (fun c hc => hb c (List.mem_append_left _ hc)) h.not_blank
    fun c hc => hb c (List.mem_append_right _ hc)

/-- What a text denotes is written between the blanks at its ends. -/
theorem denotes_iff {t : Text} {q : ℚ} :
    t.Denotes q ↔ ∃ chars, t.chars? = some chars ∧ Writes (trim isBlank chars) q := by
  constructor
  · rintro ⟨before, cs, after, rfl, hblank, hw⟩
    exact ⟨_, chars?_ofChars _, by rwa [hw.trim hblank]⟩
  · rintro ⟨chars, hchars, hw⟩
    obtain ⟨before, after, hcut, hblank⟩ := exists_eq_append_trim isBlank chars
    exact ⟨before, _, after, hcut ▸ ofChars_of_chars? hchars, hblank, hw⟩

end Text

namespace Duration

open Text (Writes isBlank)

/-- **A text is read exactly if it denotes a duration.** -/
theorem ofText?_eq_some_iff {t : Text} {d : Duration} : ofText? t = some d ↔ t.Denotes d.value := by
  rw [Text.denotes_iff]
  constructor
  · intro h
    obtain ⟨chars, hchars, h⟩ := Option.bind_eq_some_iff.mp h
    obtain ⟨ratio, hratio, h⟩ := Option.bind_eq_some_iff.mp h
    obtain ⟨q, hq, h⟩ := Option.bind_eq_some_iff.mp h
    have hvalue : d.value = q := by
      unfold ofRat? at h
      split at h
      · cases h
        rfl
      · cases h
    refine ⟨chars, hchars, ?_⟩
    rw [Text.writes_iff, hratio, hvalue]
    exact hq
  · rintro ⟨chars, hchars, hw⟩
    obtain ⟨ratio, hratio, hq⟩ := Option.bind_eq_some_iff.mp hw.value?
    simp only [ofText?, hchars, Option.bind_eq_bind, Option.bind_some, hratio, hq, ofRat?_value]

theorem ofDocument_text_eq_ok_iff {t : Text} {d : Duration} :
    ofDocument (.text t) = .ok d ↔ t.Denotes d.value := by
  rw [← ofText?_eq_some_iff, ofDocument]
  cases ofText? t with
  | none => simp
  | some e => simp

/-- No text denotes two numbers. -/
theorem eq_of_denotes {t : Text} {p q : ℚ} (hp : t.Denotes p) (hq : t.Denotes q) : p = q := by
  obtain ⟨chars, hchars, hw⟩ := Text.denotes_iff.mp hp
  obtain ⟨chars', hchars', hw'⟩ := Text.denotes_iff.mp hq
  obtain rfl := Option.some.inj (hchars.symm.trans hchars')
  exact Option.some.inj (hw.value?.symm.trans hw'.value?)

/-- **A text is a duration exactly if it denotes a number that is not negative, and it is then the
duration of this very number; of every other text the error is that of a malformed duration.** -/
theorem reads_iff_denotes (t : Text) :
    (∀ d, ofDocument (.text t) = .ok d ↔ t.Denotes d.value) ∧
      (∀ p q, t.Denotes p → t.Denotes q → p = q) ∧
        ((¬ ∃ q, 0 ≤ q ∧ t.Denotes q) →
          ∃ e, ofDocument (.text t) = .error e ∧ e.category = .value ∧
            e.message = "Invalid duration: " ++ t.quote) := by
  refine ⟨fun d => ofDocument_text_eq_ok_iff, fun p q => eq_of_denotes, fun h => ?_⟩
  refine ⟨.malformed (.text t), ?_, rfl, rfl⟩
  rw [ofDocument]
  cases ht : ofText? t with
  | none => rfl
  | some d => exact absurd ⟨d.value, d.nonneg, ofText?_eq_some_iff.mp ht⟩ h

theorem reads_iff_denotes_spaced :
    ofDocument (.text (Text.ofString "\u2003+1_0.5E-1\n")) = .ok ⟨21 / 20, by norm_num⟩ ∧
      ∃ e, ofDocument (.text (Text.ofString "1/0")) = .error e ∧ e.category = .value ∧
        e.message = "Invalid duration: '1/0'" := by
  constructor
  · refine ((reads_iff_denotes _).1 _).mpr ⟨['\u2003'], "+1_0.5E-1".toList, ['\n'], rfl,
      List.all_eq_true.mp rfl, ?_⟩
    have hw : Writes "+1_0.5E-1".toList (((1 : Int) : ℚ) *
        (Text.number [1, 0] + Text.number [5] / 10 ^ [5].length) *
          10 ^ (-1 * (Text.number [1] : Int))) :=
      .decimal .plus (.run (.apart rfl (.last rfl))) (.point (.run (.last rfl)))
        (.power (.inr rfl) .minus (.last rfl)) (by simp)
    have hten : Text.number [1, 0] = 10 := rfl
    have hfive : Text.number [5] = 5 := rfl
    have hone : Text.number [1] = 1 := rfl
    rw [hten, hfive, hone] at hw
    norm_num at hw
    exact hw
  · refine (reads_iff_denotes _).2.2 ?_
    rintro ⟨q, hq, hd⟩
    have hread : ofText? (Text.ofString "1/0") = some ⟨q, hq⟩ := ofText?_eq_some_iff.mpr hd
    cases hread

/-! ### The text of a duration -/

/-- A duration's own text denotes it, also with blanks around it. -/
theorem denotes_text (d : Duration) {before after : List Char}
    (h : ∀ c ∈ before ++ after, isBlank c = true) :
    (Text.ofChars (before ++ (d.text.toList ++ after))).Denotes d.value := by
  exact ⟨before, d.text.toList, after, rfl, h, Text.writes_iff.mpr (value?_ratText d.nonneg)⟩

/-- The text of a duration shows its amount in lowest terms. -/
theorem exists_text_eq (d : Duration) : ∃ a b : ℕ, 0 < b ∧ a.Coprime b ∧ d.value = a / b ∧
    d.text = if b = 1 then toString a else toString a ++ "/" ++ toString b := by
  obtain ⟨a, ha⟩ := Int.eq_ofNat_of_zero_le (Rat.num_nonneg.mpr d.nonneg)
  refine ⟨a, d.value.den, d.value.den_pos, ?_, ?_, ?_⟩
  · have hc := d.value.reduced
    rwa [ha] at hc
  · have hq := Rat.num_div_den d.value
    rw [ha] at hq
    exact hq.symm
  · rw [text, ratText, ha]
    rfl

end Duration

end RhythmTree
