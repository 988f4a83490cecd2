import RhythmTree.Schema.Token
import Mathlib.Tactic.ByContra

/-!
# Duration payloads

Nearly everything that is no duration is a wrong value, which a check reports like any other fault.
The exception is a pair: its items have to be whole numbers, and an item of a type or a size for
which there are none is an error of another category. Such an error ends the check of the whole
stream, however deep inside of containers the pair stands.

* `Duration.BreaksOff`, `breaksOff_iff`: **the payloads that lead to such an error.**
* `Schema.Carries`: a datum holds a duration payload, in itself or in a token inside.
* `aborts_tokens_iff`: **the check of a list comes to an end exactly if a payload in it breaks off.**
* `tokens_finds`, `Carries.finds`: all other faults of payloads are reported.
-/

namespace RhythmTree

/-! ### Durations -/

/-- The two items of a list of two or of a pair. -/
def Document.halves? : Document → Option (Document × Document)
  | .list [first, second] => some (first, second)
  | .pair first second => some (first, second)
  | _ => none

namespace Duration

/-- A value for which there is no whole number, whatever it is: nothing, an infinity, a moment or a
collection. -/
def NoInteger : Document → Prop
  | .null | .float (.infinite _) | .moment _ | .list _ | .pair _ _ | .set _ | .record _
  | .ancestor _ => True
  | _ => False

/-- A pair with an item for which there is no whole number: the denominator, or else the numerator
over a denominator that is not zero. -/
def BreaksOff (raw : Document) : Prop :=
  ∃ numerator denominator, raw.halves? = some (numerator, denominator) ∧
    (NoInteger denominator ∨
      NoInteger numerator ∧ ∃ n, integer denominator = .ok n ∧ n ≠ 0)

/-- An error that is not about a wrong value. -/
def Error.IsForeign (e : Error) : Prop := e.category = .type ∨ e.category = .overflow

theorem Error.IsForeign.not_value {e : Error} (h : e.IsForeign) : e.category ≠ .value := by
  rcases h with h | h <;> rw [h] <;> decide

theorem integer_of_noInteger {d : Document} (h : NoInteger d) :
    ∃ e, integer d = .error e ∧ e.IsForeign := by
  cases d with
  | null | moment _ | list _ | pair _ _ | set _ | record _ | ancestor _ =>
    exact ⟨_, rfl, .inl rfl⟩
  | float x =>
    cases x with
    | infinite negative => exact ⟨_, rfl, .inr rfl⟩
    | _ => cases h
  | _ => cases h

theorem category_of_integer {d : Document} (h : ¬ NoInteger d) {e : Error}
    (he : integer d = .error e) : e.category = .value := by
  cases d with
  | null | moment _ | list _ | pair _ _ | set _ | record _ | ancestor _ => exact absurd trivial h
  | bool b => cases b <;> cases he
  | int n => cases he
  | float x =>
    cases x with
    | nan =>
      cases he
      rfl
    | infinite negative => exact absurd trivial h
    | finite negative code => cases he
  | text t =>
    rw [integer] at he
    cases hw : wholeOfText? t with
    | some n => simp [hw] at he
    | none =>
      simp only [hw, Except.error.injEq] at he
      exact he ▸ rfl
  | octets value =>
    rw [integer] at he
    cases hw : wholeOfText? (asciiText value) with
    | some n => simp [hw] at he
    | none =>
      simp only [hw, Except.error.injEq] at he
      exact he ▸ rfl

theorem category_of_ofRat {q : Rat} {e : Error} (h : ofRat q = .error e) : e.category = .value := by
  unfold ofRat at h
  split at h <;> cases h
  rfl

theorem ofDocument_of_halves? {raw numerator denominator : Document}
    (h : raw.halves? = some (numerator, denominator)) :
    ofDocument raw = ofPair numerator denominator := by
  unfold Document.halves? at h
  split at h <;> cases h <;> rfl

theorem ofPair_eq (numerator denominator : Document) :
    ofPair numerator denominator =
      match integer denominator with
      | .error e => .error e
      | .ok below =>
        if below = 0 then .error (.malformed (.list [numerator, denominator]))
        else
          match integer numerator with
          | .error e => .error e
          | .ok above => ofRat (Rat.divInt above below) := by
  unfold ofPair
  cases integer denominator with
  | error e => rfl
  | ok below =>
    by_cases hb : below = 0
    · cases integer numerator <;> simp [hb, bind, Except.bind]
    · cases integer numerator <;> simp [hb, bind, Except.bind]

theorem ofDocument_of_breaksOff {raw : Document} (h : BreaksOff raw) :
    ∃ e, ofDocument raw = .error e ∧ e.IsForeign := by
  obtain ⟨numerator, denominator, hh, h⟩ := h
  rw [ofDocument_of_halves? hh, ofPair_eq]
  rcases h with h | ⟨h, n, hn, hz⟩
  · obtain ⟨e, he, hf⟩ := integer_of_noInteger h
    exact ⟨e, by rw [he], hf⟩
  · obtain ⟨e, he, hf⟩ := integer_of_noInteger h
    exact ⟨e, by rw [hn, he]; exact if_neg hz, hf⟩

theorem category_of_ofPair {numerator denominator : Document} {e : Error}
    (he : ofPair numerator denominator = .error e) (hd : ¬ NoInteger denominator)
    (hn : ∀ n, integer denominator = .ok n → n ≠ 0 → ¬ NoInteger numerator) :
    e.category = .value := by
  rw [ofPair_eq] at he
  cases hb : integer denominator with
  | error e' =>
    simp only [hb, Except.error.injEq] at he
    exact he ▸ category_of_integer hd hb
  | ok below =>
    simp only [hb] at he
    split at he
    · rw [← Except.error.inj he]
      rfl
    · next hz =>
      cases ha : integer numerator with
      | error e' =>
        simp only [ha, Except.error.injEq] at he
        exact he ▸ category_of_integer (hn below hb hz) ha
      | ok above =>
        simp only [ha] at he
        exact category_of_ofRat he

/-- **Whatever is no duration is a wrong value, unless it breaks the reading off.** -/
theorem category_of_ofDocument {raw : Document} (h : ¬ BreaksOff raw) {e : Error}
    (he : ofDocument raw = .error e) : e.category = .value := by
  cases hh : raw.halves? with
  | some halves =>
    obtain ⟨numerator, denominator⟩ := halves
    rw [ofDocument_of_halves? hh] at he
    refine category_of_ofPair he (fun hd => h ⟨_, _, hh, .inl hd⟩) fun n hn hz ha => ?_
    exact h ⟨_, _, hh, .inr ⟨ha, n, hn, hz⟩⟩
  | none =>
    unfold ofDocument at he
    split at he
    · exact category_of_ofRat he
    · split at he
      · cases he
      · rw [← Except.error.inj he]
        rfl
    · cases hh
    · cases hh
    · rw [← Except.error.inj he]
      rfl

theorem breaksOff_iff {raw : Document} :
    BreaksOff raw ↔ ∃ e, ofDocument raw = .error e ∧ e.category ≠ .value := by
  constructor
  · intro h
    obtain ⟨e, he, hf⟩ := ofDocument_of_breaksOff h
    exact ⟨e, he, hf.not_value⟩
  · rintro ⟨e, he, hc⟩
    by_contra h
    exact hc (category_of_ofDocument h he)

end Duration

/-! ### Checks -/

namespace Schema

/-- A check that comes to an end before it is through. -/
def Checked.Aborts {α : Type} (c : Checked α) : Prop := ∃ e, c = .aborted e

/-- A check that finds a fault. -/
def Checked.Finds {α : Type} (c : Checked α) (fault : Fault) : Prop :=
  ∃ problems, c = .invalid problems ∧ ∃ p ∈ problems, p.fault = fault

namespace Checked

variable {α β γ : Type} {a : Checked α} {b : Checked β} {fault : Fault}

theorem both_eq_aborted {f : α → β → γ} {e : Duration.Error} (h : both f a b = .aborted e) :
    a = .aborted e ∨ b = .aborted e := by
  cases a <;> cases b <;> simp_all [both]

@[simp] theorem aborts_both {f : α → β → γ} : (both f a b).Aborts ↔ a.Aborts ∨ b.Aborts := by
  cases a <;> cases b <;> simp [Aborts, both]

theorem under_eq_aborted {step : Step} {e : Duration.Error} :
    a.under step = .aborted e ↔ a = .aborted e := by
  cases a <;> simp [under]

@[simp] theorem aborts_under {step : Step} : (a.under step).Aborts ↔ a.Aborts := by
  simp only [Aborts, under_eq_aborted]

theorem Finds.under {step : Step} (h : a.Finds fault) : (a.under step).Finds fault := by
  obtain ⟨problems, rfl, p, hp, rfl⟩ := h
  exact ⟨_, rfl, p.under step, List.mem_map_of_mem hp, rfl⟩

/-- What one of two checks finds is found, if neither comes to an end before. -/
theorem Finds.both_left {f : α → β → γ} (h : a.Finds fault) (hn : ¬ (both f a b).Aborts) :
    (both f a b).Finds fault := by
  obtain ⟨problems, rfl, p, hp, rfl⟩ := h
  cases b with
  | ok value => exact ⟨_, rfl, p, hp, rfl⟩
  | invalid qs => exact ⟨_, rfl, p, List.mem_append_left qs hp, rfl⟩
  | aborted e => exact absurd ⟨e, rfl⟩ hn

theorem Finds.both_right {f : α → β → γ} (h : b.Finds fault) (hn : ¬ (both f a b).Aborts) :
    (both f a b).Finds fault := by
  obtain ⟨problems, rfl, p, hp, rfl⟩ := h
  cases a with
  | ok value => exact ⟨_, rfl, p, hp, rfl⟩
  | invalid ps => exact ⟨_, rfl, p, List.mem_append_right ps hp, rfl⟩
  | aborted e => exact absurd ⟨e, rfl⟩ hn

end Checked

/-! ### Fields without durations -/

theorem text_ne_aborted (d : Document) (e : Duration.Error) : text d ≠ .aborted e := by
  unfold text
  split
  · simp
  · split <;> simp [Checked.fail]

theorem int_ne_aborted (d : Document) (e : Duration.Error) : int d ≠ .aborted e := by
  unfold int
  split
  · simp
  · simp
  · unfold intOfFloat
    repeat' split
    all_goals simp [Checked.fail]
  · split
    · simp [Checked.fail]
    · simp [Checked.fail]
    · split <;> simp [Checked.fail]

theorem float_ne_aborted (d : Document) (e : Duration.Error) : float d ≠ .aborted e := by
  unfold float
  split
  · simp
  · split <;> simp [Checked.fail]
  · simp
  · split
    · simp [Checked.fail]
    · simp [Checked.fail]
    · split <;> simp [Checked.fail]

theorem optionalText_ne_aborted (d : Document) (e : Duration.Error) :
    optionalText d ≠ .aborted e := by
  unfold optionalText
  split
  · simp
  · cases h : text d with
    | aborted e' => exact absurd h (text_ne_aborted d e')
    | _ => simp [Checked.map]

theorem optionalLevel_ne_aborted (d : Document) (e : Duration.Error) :
    optionalLevel d ≠ .aborted e := by
  unfold optionalLevel
  split
  · simp
  · cases h : int d with
    | aborted e' => exact absurd h (int_ne_aborted d e')
    | ok n => cases hl : Level.ofInt? n <;> simp [hl, Checked.fail]
    | invalid problems => simp

variable {fields : Document.Fields}

theorem required_eq_aborted {α : Type} {name : String} {check : Document → Checked α}
    {e : Duration.Error} : required name check fields = .aborted e ↔
      ∃ v, Document.valueOf? name fields = some v ∧ check v = .aborted e := by
  rw [required, Checked.under_eq_aborted]
  cases Document.valueOf? name fields <;> simp [Checked.fail]

theorem withDefault_eq_aborted {α : Type} {name : String} {default : α}
    {check : Document → Checked α} {e : Duration.Error} :
    withDefault name default check fields = .aborted e ↔
      ∃ v, Document.valueOf? name fields = some v ∧ check v = .aborted e := by
  rw [withDefault, Checked.under_eq_aborted]
  cases Document.valueOf? name fields <;> simp

/-! ### Tokens -/

/-- The datum is a token that holds a duration payload, itself or in a token inside. -/
inductive Carries : Document → Document → Prop
  | payload {fields : Document.Fields} {v : Document} (kind : kindOf fields = .ok "duration")
      (value : Document.valueOf? "value" fields = some v) : Carries (.record fields) v
  | nested {fields : Document.Fields} {list d v : Document} {items : List Document}
      (kind : kindOf fields = .ok "container")
      (tokens : Document.valueOf? "tokens" fields = some list)
      (listed : listItems? list = some items) (mem : d ∈ items) (inner : Carries d v) :
      Carries (.record fields) v

theorem token_of_atom {kind : String} (h : kindOf fields = .ok kind) (hc : kind ≠ "container") :
    token (.record fields) =
      match atom? kind fields with
      | some result => result.under (.field kind)
      | none => .fail .kindUnknown := by
  rw [token, h]
  split
  · next he => cases he
  · next he => exact absurd (Except.ok.inj he) hc
  · next he =>
    obtain rfl := Except.ok.inj he
    rfl

theorem token_of_duration (h : kindOf fields = .ok "duration") :
    token (.record fields) =
      (Checked.both .duration (identifier fields) (required "value" duration fields)).under
        (.field "duration") :=
  token_of_atom h (by decide)

theorem token_of_container (h : kindOf fields = .ok "container") :
    token (.record fields) =
      (Checked.both (fun front tokens => .container front.1 front.2 tokens)
        (.both Prod.mk (identifier fields)
          (withDefault "opening_value" none optionalText fields))
        ((nested fields).under (.field "tokens"))).under (.field "container") := by
  rw [token, h]
  rfl

theorem nested_eq (fields : Document.Fields) :
    nested fields =
      match Document.valueOf? "tokens" fields with
      | some list => stream list
      | none => .ok [] := by
  induction fields with
  | nil => rfl
  | cons entry rest ih =>
    obtain ⟨name, value⟩ := entry
    rw [nested, Document.valueOf?, List.lookup_cons]
    by_cases h : name = .text "tokens"
    · subst h
      simp
    · have hb : (Document.Name.text "tokens" == name) = false := beq_false_of_ne (Ne.symm h)
      rw [if_neg h, hb, ih]
      rfl

theorem stream_eq (d : Document) :
    stream d =
      match listItems? d with
      | some items => tokens 0 items
      | none => .fail .notList := by
  cases d with
  | pair first second =>
    show _ = tokens 0 [first, second]
    rw [stream, tokens, tokens, tokens]
    cases (token first).under (.index 0) <;> cases (token second).under (.index 1) <;> rfl
  | _ => rfl

theorem identifier_ne_aborted (fields : Document.Fields) (e : Duration.Error) :
    identifier fields ≠ .aborted e := by
  intro h
  obtain ⟨v, -, hv⟩ := required_eq_aborted.mp h
  exact text_ne_aborted v e hv

theorem duration_eq_aborted {v : Document} {e : Duration.Error} :
    duration v = .aborted e ↔ Duration.ofDocument v = .error e ∧ e.category ≠ .value := by
  unfold duration
  cases Duration.ofDocument v with
  | ok d => simp
  | error e' =>
    dsimp only
    split
    · next hc =>
      refine iff_of_false (fun h => by cases h) ?_
      rintro ⟨he, hn⟩
      exact hn (Except.error.inj he ▸ hc)
    · next hc =>
      simp only [Checked.aborted.injEq, Except.error.injEq, iff_self_and]
      exact fun he => he ▸ hc

/-- No other kind of atomic token has a field that can bring a check to an end. -/
theorem atom?_ne_aborted {kind : String} (h : kind ≠ "duration") {result : Checked Token}
    (hr : atom? kind fields = some result) (e : Duration.Error) : result ≠ .aborted e := by
  rintro rfl
  unfold atom? at hr
  split at hr
  · rcases Checked.both_eq_aborted (Option.some.inj hr) with hr | hr
    · exact identifier_ne_aborted fields e hr
    · obtain ⟨v, -, hv⟩ := required_eq_aborted.mp hr
      exact text_ne_aborted v e hv
  · rcases Checked.both_eq_aborted (Option.some.inj hr) with hr | hr
    · rcases Checked.both_eq_aborted hr with hr | hr
      · exact identifier_ne_aborted fields e hr
      · obtain ⟨v, -, hv⟩ := required_eq_aborted.mp hr
        exact int_ne_aborted v e hv
    · obtain ⟨v, -, hv⟩ := withDefault_eq_aborted.mp hr
      exact optionalLevel_ne_aborted v e hv
  · rcases Checked.both_eq_aborted (Option.some.inj hr) with hr | hr
    · exact identifier_ne_aborted fields e hr
    · obtain ⟨v, -, hv⟩ := required_eq_aborted.mp hr
      exact float_ne_aborted v e hv
  · exact h rfl
  · cases hr

/-- What brings the check of a record to an end is a payload, or it comes from inside. -/
theorem token_eq_aborted {e : Duration.Error} (h : token (.record fields) = .aborted e) :
    (kindOf fields = .ok "duration" ∧
      ∃ v, Document.valueOf? "value" fields = some v ∧ duration v = .aborted e) ∨
    (kindOf fields = .ok "container" ∧ nested fields = .aborted e) := by
  cases hk : kindOf fields with
  | error fault =>
    rw [token, hk] at h
    cases h
  | ok kind =>
    by_cases hd : kind = "duration"
    · subst hd
      rw [token_of_duration hk, Checked.under_eq_aborted] at h
      rcases Checked.both_eq_aborted h with h | h
      · exact absurd h (identifier_ne_aborted fields e)
      · exact .inl ⟨rfl, required_eq_aborted.mp h⟩
    by_cases hc : kind = "container"
    · subst hc
      rw [token_of_container hk, Checked.under_eq_aborted] at h
      rcases Checked.both_eq_aborted h with h | h
      · rcases Checked.both_eq_aborted h with h | h
        · exact absurd h (identifier_ne_aborted fields e)
        · obtain ⟨v, -, hv⟩ := withDefault_eq_aborted.mp h
          exact absurd hv (optionalText_ne_aborted v e)
      · exact .inr ⟨rfl, Checked.under_eq_aborted.mp h⟩
    exfalso
    rw [token_of_atom hk hc] at h
    cases ha : atom? kind fields with
    | none =>
      rw [ha] at h
      cases h
    | some result =>
      rw [ha] at h
      exact atom?_ne_aborted hd ha e (Checked.under_eq_aborted.mp h)

-- the induction is that of the check: from a token to the list in its field, and to the items there
mutual

/-- What brings the check of a token to an end is a payload inside. -/
theorem exists_carries_of_token {e : Duration.Error} : ∀ {d : Document}, token d = .aborted e →
    ∃ v, Carries d v ∧ duration v = .aborted e
  | .record fields, h => by
    rcases token_eq_aborted h with ⟨hk, v, hv, he⟩ | ⟨hk, h⟩
    · exact ⟨v, .payload hk hv, he⟩
    · obtain ⟨list, items, d, v, hl, hi, hd, hc, he⟩ := exists_carries_of_nested h
      exact ⟨v, .nested hk hl hi hd hc, he⟩

theorem exists_carries_of_nested {e : Duration.Error} : ∀ {fields : Document.Fields},
    nested fields = .aborted e → ∃ list items d v, Document.valueOf? "tokens" fields = some list ∧
      listItems? list = some items ∧ d ∈ items ∧ Carries d v ∧ duration v = .aborted e
  | (name, value) :: rest, h => by
    rw [nested] at h
    rw [Document.valueOf?, List.lookup_cons]
    split at h
    · next hn =>
      obtain ⟨items, hi, d, hd, v, hv⟩ := exists_carries_of_stream h
      exact ⟨value, items, d, v, by simp [hn], hi, hd, hv⟩
    · next hn =>
      have hb : (Document.Name.text "tokens" == name) = false := beq_false_of_ne (Ne.symm hn)
      rw [hb]
      exact exists_carries_of_nested h

theorem exists_carries_of_stream {e : Duration.Error} : ∀ {d : Document}, stream d = .aborted e →
    ∃ items, listItems? d = some items ∧ ∃ d ∈ items, ∃ v, Carries d v ∧ duration v = .aborted e
  | .list items, h => ⟨items, rfl, exists_carries_of_tokens h⟩
  | .set items, h => ⟨items, rfl, exists_carries_of_tokens h⟩
  | .pair first second, h => by
    refine ⟨[first, second], rfl, ?_⟩
    rcases Checked.both_eq_aborted h with h | h
    · exact ⟨first, by simp, exists_carries_of_token (Checked.under_eq_aborted.mp h)⟩
    · exact ⟨second, by simp, exists_carries_of_token (Checked.under_eq_aborted.mp h)⟩

theorem exists_carries_of_tokens {e : Duration.Error} {first : Nat} : ∀ {items : List Document},
    tokens first items = .aborted e → ∃ d ∈ items, ∃ v, Carries d v ∧ duration v = .aborted e
  | d :: rest, h => by
    rcases Checked.both_eq_aborted h with h | h
    · exact ⟨d, by simp, exists_carries_of_token (Checked.under_eq_aborted.mp h)⟩
    · obtain ⟨d', hd, hv⟩ := exists_carries_of_tokens h
      exact ⟨d', List.mem_cons_of_mem d hd, hv⟩

end

/-! ### From a payload to its token -/

theorem tokens_aborts {d : Document} {items : List Document} (hd : d ∈ items)
    (h : (token d).Aborts) (first : Nat) : (tokens first items).Aborts := by
  induction items generalizing first with
  | nil => cases hd
  | cons d' rest ih =>
    rw [tokens, Checked.aborts_both, Checked.aborts_under]
    rcases List.mem_cons.mp hd with rfl | hd
    · exact .inl h
    · exact .inr (ih hd (first + 1))

theorem tokens_finds {d : Document} {items : List Document} (hd : d ∈ items) {fault : Fault}
    (h : (token d).Finds fault) {first : Nat} (hn : ¬ (tokens first items).Aborts) :
    (tokens first items).Finds fault := by
  induction items generalizing first with
  | nil => cases hd
  | cons d' rest ih =>
    rw [tokens] at hn ⊢
    rcases List.mem_cons.mp hd with rfl | hd
    · exact h.under.both_left hn
    · rw [Checked.aborts_both, not_or] at hn
      exact (ih hd hn.2).both_right (by rwa [Checked.aborts_both, not_or])

theorem nested_eq_tokens {list : Document} {items : List Document}
    (ht : Document.valueOf? "tokens" fields = some list) (hl : listItems? list = some items) :
    nested fields = tokens 0 items := by
  rw [nested_eq, ht]
  show stream list = _
  rw [stream_eq, hl]

/-- **A payload brings the check of its token to an end, if it can.** -/
theorem Carries.aborts {d v : Document} (h : Carries d v) (hv : (duration v).Aborts) :
    (token d).Aborts := by
  induction h with
  | payload kind value =>
    obtain ⟨e, he⟩ := hv
    rw [token_of_duration kind, Checked.aborts_under, Checked.aborts_both]
    exact .inr ⟨e, required_eq_aborted.mpr ⟨_, value, he⟩⟩
  | nested kind ht hl hd _ ih =>
    rw [token_of_container kind, Checked.aborts_under, Checked.aborts_both, Checked.aborts_under,
      nested_eq_tokens ht hl]
    exact .inr (tokens_aborts hd (ih hv) 0)

/-- **What is wrong with a payload is found in its token, unless something else comes before.** -/
theorem Carries.finds {d v : Document} (h : Carries d v) {fault : Fault}
    (hv : (duration v).Finds fault) (hn : ¬ (token d).Aborts) : (token d).Finds fault := by
  induction h with
  | payload kind value =>
    rw [token_of_duration kind, Checked.aborts_under] at hn
    rw [token_of_duration kind]
    refine Checked.Finds.under (Checked.Finds.both_right ?_ hn)
    rw [required, value]
    exact hv.under
  | nested kind ht hl hd _ ih =>
    rw [token_of_container kind, Checked.aborts_under, nested_eq_tokens ht hl] at hn
    rw [token_of_container kind, nested_eq_tokens ht hl]
    refine Checked.Finds.under (Checked.Finds.both_right (Checked.Finds.under ?_) hn)
    rw [Checked.aborts_both, Checked.aborts_under, not_or] at hn
    exact tokens_finds hd (ih hv fun ha => hn.2 (tokens_aborts hd ha 0)) hn.2

theorem isForeign_of_tokens {items : List Document} {first : Nat} {e : Duration.Error}
    (h : tokens first items = .aborted e) : e.IsForeign := by
  obtain ⟨d, -, v, -, hv⟩ := exists_carries_of_tokens h
  obtain ⟨he, hc⟩ := duration_eq_aborted.mp hv
  obtain ⟨e', he', hf⟩ := Duration.ofDocument_of_breaksOff (Duration.breaksOff_iff.mpr ⟨e, he, hc⟩)
  obtain rfl := Except.error.inj (he.symm.trans he')
  exact hf

theorem aborts_tokens_iff {items : List Document} {first : Nat} :
    (tokens first items).Aborts ↔
      ∃ d ∈ items, ∃ v, Carries d v ∧ Duration.BreaksOff v := by
  constructor
  · rintro ⟨e, h⟩
    obtain ⟨d, hd, v, hc, hv⟩ := exists_carries_of_tokens h
    exact ⟨d, hd, v, hc, Duration.breaksOff_iff.mpr ⟨e, duration_eq_aborted.mp hv⟩⟩
  · rintro ⟨d, hd, v, hc, hv⟩
    obtain ⟨e, he⟩ := Duration.breaksOff_iff.mp hv
    exact tokens_aborts hd (hc.aborts ⟨e, duration_eq_aborted.mpr he⟩) first

end Schema

end RhythmTree
