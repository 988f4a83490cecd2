import RhythmTree.Proofs.Plain

/-!
# Malformed tokens

Whether a stream parses leniently depends on its tokens one by one. No state that a builder can
reach makes a token fail that would not fail by itself: what cannot be attached is recorded and left
out. Numbers and trees may be as large as they like here.

* `Token.Malformed`: what is wrong with a token, kind by kind, in terms of its identifier and its
  payload.
* `isMalformed_ofTempo`, `isMalformed_ofDynamics`, `isMalformed_ofDeclaration`: when the tokens
  inside a container spoil it.
* `isWellFormed_iff`: reading a token finds exactly these faults.
* `exists_build_lenient_iff`: **a stream parses leniently exactly if no token is malformed.**
-/

namespace RhythmTree

theorem Text.string?_eq_some_iff {t : Text} {s : String} : t.string? = some s ↔ t = s := by
  have mapM_char : ∀ (symbols : List Symbol) (cs : List Char),
      symbols.mapM Symbol.char? = some cs → symbols = cs.map .char := by
    intro symbols
    induction symbols with
    | nil =>
      intro cs h
      cases h
      rfl
    | cons symbol rest ih =>
      intro cs h
      rw [List.mapM_cons] at h
      cases symbol with
      | half number => cases h
      | char c =>
        obtain ⟨ds, hds, rfl⟩ : ∃ ds, rest.mapM Symbol.char? = some ds ∧ c :: ds = cs := by
          simpa [Symbol.char?, Option.bind_eq_some_iff] using h
        rw [List.map_cons, ← ih ds hds]
  constructor
  · intro h
    obtain ⟨cs, hcs, rfl⟩ := Option.map_eq_some_iff.mp h
    obtain ⟨symbols⟩ := t
    rw [ofString, ofChars, String.toList_ofList, ← mapM_char symbols cs hcs]
  · rintro rfl
    exact string?_ofString s

namespace Token

/-! ### Identifiers and payloads -/

/-- The identifier of the token is the spelling of a keyword. -/
def Carries (t : Token) (k : Keyword) : Prop := t.identifier = k.spelling

def IsText (t : Token) : Prop := ∃ identifier value, t = .text identifier value

def IsInt (t : Token) : Prop := ∃ identifier value level, t = .int identifier value level

/-- A whole number with a level of indentation. -/
def IsIndented (t : Token) : Prop :=
  ∃ identifier value level, t = .int identifier value (some level)

def IsDuration (t : Token) : Prop := ∃ identifier value, t = .duration identifier value

theorem keyword?_eq_some_iff {t : Token} {k : Keyword} : t.keyword? = some k ↔ t.Carries k := by
  constructor
  · intro h
    obtain ⟨text, ht, hk⟩ := Option.bind_eq_some_iff.mp h
    rw [Carries, Keyword.spelling_of_ofSpelling? hk]
    exact Text.string?_eq_some_iff.mp ht
  · exact keyword?_of_identifier

theorem textPayload_cases (t : Token) :
    (∃ identifier value, t = .text identifier value ∧ t.textPayload = .ok value) ∨
      (¬ t.IsText ∧ ∃ m, t.textPayload = .error m) := by
  cases t with
  | text identifier value => exact .inl ⟨identifier, value, rfl, rfl⟩
  | _ =>
    refine .inr ⟨?_, _, rfl⟩
    rintro ⟨_, _, h⟩
    cases h

theorem intPayload_cases (t : Token) :
    (t.IsInt ∧ ∃ n, t.intPayload = .ok n) ∨ (¬ t.IsInt ∧ ∃ m, t.intPayload = .error m) := by
  cases t with
  | int identifier value level => exact .inl ⟨⟨identifier, value, level, rfl⟩, value, rfl⟩
  | _ =>
    refine .inr ⟨?_, _, rfl⟩
    rintro ⟨_, _, _, h⟩
    cases h

/-! ### Faults -/

/-- The keywords under which an atomic token carries a text. -/
def textKeywords : List Keyword :=
  [.performerId, .instrumentId, .title, .metadataKey, .metadataValue, .rehearsalMarking]

/-- The first of some tokens that carries a keyword. -/
def First (k : Keyword) (ts : List Token) (u : Token) : Prop :=
  ∃ before after, ts = before ++ u :: after ∧ u.Carries k ∧ ∀ w ∈ before, ¬ w.Carries k

/-- The token names an instrument type that does not exist. -/
def NamesUnknown (t : Token) : Prop :=
  t.Carries .instrumentType ∧ ∃ identifier name, t = .text identifier name ∧
    Instrument.ofText? name = none

/-- An instrument or a type among some tokens is no text, and no type before it is unknown. -/
def Spoiled (ts : List Token) : Prop :=
  ∃ before u after, ts = before ++ u :: after ∧
    ((u.Carries .instrumentId ∨ u.Carries .instrumentType) ∧ ¬ u.IsText) ∧
    ∀ w ∈ before, ¬ w.NamesUnknown

/-- **What is wrong with a token by itself.** -/
inductive Malformed : Token → Prop
  | root {t : Token} (atom : t.isContainer = false) (key : t.Carries .rootDuration)
      (payload : ¬ t.IsDuration) : Malformed t
  | node {t : Token} (atom : t.isContainer = false)
      (key : t.Carries .innerNode ∨ t.Carries .leafNode) (payload : ¬ t.IsIndented) : Malformed t
  | mode {t : Token} (atom : t.isContainer = false) (key : t.Carries .stackMode)
      (payload : ∀ mark ∈ ["|", "+", "-"], t ≠ .text t.identifier (Text.ofString mark)) :
      Malformed t
  | text {t : Token} {k : Keyword} (atom : t.isContainer = false) (hk : k ∈ textKeywords)
      (key : t.Carries k) (payload : ¬ t.IsText) : Malformed t
  /-- A value or a subdivision inside a tempo marking is no whole number. -/
  | tempoNumber {i : Text} {opening : Option Text} {ts : List Token}
      (key : (container i opening ts).Carries .tempoMarking) {u : Token} (hu : u ∈ ts)
      (inner : u.Carries .value ∨ u.Carries .subdivisionValue) (payload : ¬ u.IsInt) :
      Malformed (container i opening ts)
  | noTempo {i : Text} {opening : Option Text} {ts : List Token}
      (key : (container i opening ts).Carries .tempoMarking)
      (missing : ∀ u ∈ ts, ¬ u.Carries .value) : Malformed (container i opening ts)
  | dynamic {i : Text} {opening : Option Text} {ts : List Token}
      (key : (container i opening ts).Carries .dynamicMarking) {u : Token} (hu : u ∈ ts)
      (inner : u.Carries .value) (payload : ¬ u.IsText) : Malformed (container i opening ts)
  /-- The performer of a declaration is named by something that is no text, or by an empty one. -/
  | performer {i : Text} {opening : Option Text} {ts : List Token}
      (key : (container i opening ts).Carries .performerDeclaration) {u : Token}
      (first : First .performerId ts u) (payload : ¬ u.IsText ∨ ∃ i, u = .text i "") :
      Malformed (container i opening ts)
  /-- A declaration names no performer inside, and none or an empty one at its opening. -/
  | noPerformer {i : Text} {opening : Option Text} {ts : List Token}
      (key : (container i opening ts).Carries .performerDeclaration)
      (missing : ∀ u ∈ ts, ¬ u.Carries .performerId)
      (unnamed : opening = none ∨ opening = some ("" : Text)) : Malformed (container i opening ts)
  | instrument {i : Text} {opening : Option Text} {ts : List Token}
      (key : (container i opening ts).Carries .performerDeclaration) (spoiled : Spoiled ts) :
      Malformed (container i opening ts)

theorem spoiled_nil : ¬ Spoiled [] := by
  rintro ⟨before, u, after, h, -⟩
  simp at h

theorem spoiled_cons {t : Token} {ts : List Token} :
    Spoiled (t :: ts) ↔
      ((t.Carries .instrumentId ∨ t.Carries .instrumentType) ∧ ¬ t.IsText) ∨
        (¬ t.NamesUnknown ∧ Spoiled ts) := by
  constructor
  · rintro ⟨before, u, after, h, hu, hb⟩
    cases before with
    | nil =>
      obtain ⟨rfl, -⟩ := List.cons.inj h
      exact .inl hu
    | cons w before =>
      obtain ⟨rfl, rfl⟩ := List.cons.inj h
      exact .inr ⟨hb t (by simp), before, u, after, rfl, hu, fun w hw => hb w (by simp [hw])⟩
  · rintro (ht | ⟨ht, before, u, after, rfl, hu, hb⟩)
    · exact ⟨[], t, ts, rfl, ht, by simp⟩
    · exact ⟨t :: before, u, after, rfl, hu, List.forall_mem_cons.mpr ⟨ht, hb⟩⟩

theorem find?_eq_some_iff {k : Keyword} {ts : List Token} {u : Token} :
    ts.find? (fun t => t.keyword? = some k) = some u ↔ First k ts u := by
  rw [List.find?_eq_some_iff_append, First]
  simp only [decide_eq_true_eq, keyword?_eq_some_iff, Bool.not_eq_true', decide_eq_false_iff_not]
  constructor
  · rintro ⟨hu, before, after, rfl, hb⟩
    exact ⟨before, after, rfl, hu, hb⟩
  · rintro ⟨before, after, rfl, hu, hb⟩
    exact ⟨hu, before, after, rfl, hb⟩

theorem find?_eq_none_iff {k : Keyword} {ts : List Token} :
    ts.find? (fun t => t.keyword? = some k) = none ↔ ∀ u ∈ ts, ¬ u.Carries k := by
  rw [List.find?_eq_none]
  simp only [decide_eq_true_eq, keyword?_eq_some_iff]

end Token

/-! ### Readings -/

open Token

namespace Reading

/-- The reading is that of a malformed token. -/
def IsMalformed (r : Reading) : Prop := ∃ before malformation, r = .malformed before malformation

@[simp] theorem isMalformed_malformed (before : List Event) (m : Malformation) :
    (malformed before m).IsMalformed := ⟨before, m, rfl⟩

@[simp] theorem not_isMalformed_instruct (i : Instruction) : ¬ (instruct i).IsMalformed := by
  rintro ⟨_, _, h⟩
  cases h

@[simp] theorem not_isMalformed_unrecognized : ¬ unrecognized.IsMalformed := by
  rintro ⟨_, _, h⟩
  cases h

theorem isMalformed_ofPayload {t : Token} {f : Text → Instruction} :
    (ofPayload t.textPayload f).IsMalformed ↔ ¬ t.IsText := by
  rcases textPayload_cases t with ⟨i, value, rfl, h⟩ | ⟨hn, m, h⟩
  · rw [h]
    exact iff_of_false (not_isMalformed_instruct _) (not_not_intro ⟨i, value, rfl⟩)
  · rw [h]
    exact iff_of_true (isMalformed_malformed _ _) hn

theorem isMalformed_ofNode {t : Token} {f : Int → Level → Instruction} :
    (ofNode t f).IsMalformed ↔ ¬ t.IsIndented := by
  unfold ofNode
  split
  · next i beats level =>
    exact iff_of_false (not_isMalformed_instruct _) (not_not_intro ⟨i, beats, level, rfl⟩)
  · next h =>
    refine iff_of_true (isMalformed_malformed _ _) ?_
    rintro ⟨i, beats, level, rfl⟩
    exact h i beats level rfl

theorem ofMark?_eq_none_iff {mark : Text} :
    StackMode.ofMark? mark = none ↔ ∀ m ∈ ["|", "+", "-"], mark ≠ Text.ofString m := by
  simp only [← Text.string?_eq_some_iff, ne_eq]
  unfold StackMode.ofMark?
  split <;> simp_all

theorem isMalformed_ofMode {t : Token} :
    (ofMode t).IsMalformed ↔
      ∀ mark ∈ ["|", "+", "-"], t ≠ .text t.identifier (Text.ofString mark) := by
  unfold ofMode
  rcases textPayload_cases t with ⟨i, value, rfl, h⟩ | ⟨hn, m, h⟩
  · have hne : (∀ mark ∈ ["|", "+", "-"], Token.text i value ≠
        .text i (Text.ofString mark)) ↔ StackMode.ofMark? value = none := by
      rw [ofMark?_eq_none_iff]
      simp only [ne_eq, Token.text.injEq, true_and]
    rw [h]
    show _ ↔ ∀ mark ∈ ["|", "+", "-"], Token.text i value ≠ .text i (Text.ofString mark)
    rw [hne]
    cases hm : StackMode.ofMark? value with
    | none => simp [hm]
    | some mode => simp [hm]
  · rw [h]
    refine iff_of_true (isMalformed_malformed _ _) fun mark _ he => hn ?_
    rw [he]
    exact ⟨_, _, rfl⟩

/-! ### Containers -/

variable {ts : List Token}

theorem dynamics_ne_none_iff :
    (dynamics ts).2 ≠ none ↔ ∃ u ∈ ts, u.Carries .value ∧ ¬ u.IsText := by
  induction ts with
  | nil => simp [dynamics]
  | cons t rest ih =>
    simp only [dynamics, List.exists_mem_cons_iff, ← keyword?_eq_some_iff] at ih ⊢
    split
    · next hk =>
      rcases textPayload_cases t with ⟨i, value, rfl, h⟩ | ⟨hn, m, h⟩
      · simp only [h, ih, hk, true_and, (show (Token.text i value).IsText from ⟨i, value, rfl⟩),
          not_true_eq_false, false_or]
      · simp [h, hk, hn]
    · next hk => simp [ih, hk]
    · next hk => simp [ih, hk]
    · next hk _ _ => simp [ih, eq_false hk]

theorem isMalformed_ofDynamics :
    (ofDynamics ts).IsMalformed ↔ ∃ u ∈ ts, u.Carries .value ∧ ¬ u.IsText := by
  rw [← dynamics_ne_none_iff]
  unfold ofDynamics
  split
  · next h =>
    rw [h]
    exact iff_of_false (not_isMalformed_instruct _) (not_not_intro rfl)
  · next h =>
    rw [h]
    exact iff_of_true (isMalformed_malformed _ _) (by simp)

/-- A tempo is read if all its numbers are numbers; there is one if a token gives its value. -/
theorem tempo_cases (value : Option Int) (subdivision : Int) (ts : List Token) :
    ((∃ u ∈ ts, (u.Carries .value ∨ u.Carries .subdivisionValue) ∧ ¬ u.IsInt) ∧
      ∃ m, tempo value subdivision ts = .error m) ∨
    ((∀ u ∈ ts, u.Carries .value ∨ u.Carries .subdivisionValue → u.IsInt) ∧
      ∃ v s, tempo value subdivision ts = .ok (v, s) ∧
        (v = none ↔ value = none ∧ ∀ u ∈ ts, ¬ u.Carries .value)) := by
  induction ts generalizing value subdivision with
  | nil => exact .inr ⟨by simp, value, subdivision, rfl, by simp⟩
  | cons t rest ih =>
    simp only [List.exists_mem_cons_iff, List.forall_mem_cons, ← keyword?_eq_some_iff] at ih ⊢
    unfold tempo
    split
    · next hk =>
      rcases intPayload_cases t with ⟨ht, n, h⟩ | ⟨ht, m, h⟩
      · simpa [h, hk, ht, Except.bind] using ih (some n) subdivision
      · simp [h, hk, ht, Except.bind]
    · next hk =>
      rcases intPayload_cases t with ⟨ht, n, h⟩ | ⟨ht, m, h⟩
      · simpa [h, hk, ht, Except.bind] using ih value n
      · simp [h, hk, ht, Except.bind]
    · next hv hs => simpa [eq_false hv, eq_false hs] using ih value subdivision

theorem isMalformed_ofTempo {name : String} :
    (ofTempo name ts).IsMalformed ↔
      (∃ u ∈ ts, (u.Carries .value ∨ u.Carries .subdivisionValue) ∧ ¬ u.IsInt) ∨
        ∀ u ∈ ts, ¬ u.Carries .value := by
  unfold ofTempo
  rcases tempo_cases none defaultSubdivision ts with ⟨hbad, m, h⟩ | ⟨hgood, v, s, h, hv⟩
  · rw [h]
    exact iff_of_true (isMalformed_malformed _ _) (.inl hbad)
  · have hno : ¬ ∃ u ∈ ts, (u.Carries .value ∨ u.Carries .subdivisionValue) ∧ ¬ u.IsInt := by
      rintro ⟨u, hu, hk, hn⟩
      exact hn (hgood u hu hk)
    rw [h, or_iff_right hno]
    simp only [true_and] at hv
    cases v with
    | none => exact iff_of_true (isMalformed_malformed _ _) (hv.mp rfl)
    | some n =>
      refine iff_of_false (not_isMalformed_instruct _) fun hm => ?_
      cases hv.mpr hm

theorem instruments_eq_malformation_iff (current : Option Text) (table : Table Text Instrument) :
    (∃ m, instruments current table ts = .error (.inl m)) ↔ Spoiled ts := by
  -- the instrument named last and the table do not decide whether the tokens can be read
  induction ts generalizing current table with
  | nil => simp [instruments, spoiled_nil]
  | cons t rest ih =>
    rw [spoiled_cons, NamesUnknown]
    simp only [← keyword?_eq_some_iff]
    unfold instruments
    split
    · next hk =>
      rcases textPayload_cases t with ⟨i, value, rfl, h⟩ | ⟨hn, m, h⟩
      · have ht : (Token.text i value).IsText := ⟨i, value, rfl⟩
        simp [h, hk, ht, ih]
      · simp [h, hk, hn]
    · next hk =>
      rcases textPayload_cases t with ⟨i, value, rfl, h⟩ | ⟨hn, m, h⟩
      · have ht : (Token.text i value).IsText := ⟨i, value, rfl⟩
        cases hv : Instrument.ofText? value with
        | none => simp [h, hk, ht, hv]
        | some kind => simp [h, hk, ht, hv, ih]
      · simp [h, hk, hn]
    · next hi ht => simp [eq_false hi, eq_false ht, ih]

theorem isMalformed_ofInstruments {id : Text} :
    (ofInstruments id ts).IsMalformed ↔ Spoiled ts := by
  rw [← instruments_eq_malformation_iff none .empty]
  unfold ofInstruments
  split
  · next h => simp [h]
  · next m h => simp [h]
  · next h => simp [h]

variable {name : String} {opening : Option Text}

theorem isMalformed_ofDeclaration_of_ok {who : Option Text} (h : performer opening ts = .ok who) :
    (ofDeclaration name opening ts).IsMalformed ↔
      (who = none ∨ who = some ("" : Text)) ∨ Spoiled ts := by
  unfold ofDeclaration
  rw [h]
  cases who with
  | none => exact iff_of_true (isMalformed_malformed _ _) (.inl (.inl rfl))
  | some id =>
    show (if id = "" then _ else _ : Reading).IsMalformed ↔ _
    split
    · next hid => exact iff_of_true (isMalformed_malformed _ _) (.inl (.inr (congrArg some hid)))
    · next hid => simp [hid, isMalformed_ofInstruments]

theorem isMalformed_ofDeclaration :
    (ofDeclaration name opening ts).IsMalformed ↔
      (∃ u, First .performerId ts u ∧ (¬ u.IsText ∨ ∃ i, u = .text i "")) ∨
        ((∀ u ∈ ts, ¬ u.Carries .performerId) ∧ (opening = none ∨ opening = some ("" : Text))) ∨
        Spoiled ts := by
  simp only [← find?_eq_some_iff, ← find?_eq_none_iff]
  cases hf : ts.find? fun t => t.keyword? = some .performerId with
  | none =>
    have hp : performer opening ts = .ok opening := by
      rw [performer, hf]
    rw [isMalformed_ofDeclaration_of_ok hp]
    simp
  | some u =>
    rcases textPayload_cases u with ⟨i, value, rfl, h⟩ | ⟨hn, m, h⟩
    · have hp : performer opening ts = .ok (some value) := by
        rw [performer, hf]
        simp only [h]
        rfl
      have ht : (Token.text i value).IsText := ⟨i, value, rfl⟩
      rw [isMalformed_ofDeclaration_of_ok hp]
      simp [ht]
    · have hp : performer opening ts = .error m := by
        rw [performer, hf]
        simp only [h]
        rfl
      unfold ofDeclaration
      rw [hp]
      exact iff_of_true (isMalformed_malformed _ _) (.inl ⟨u, rfl, .inl hn⟩)

/-! ### Tokens -/

theorem ofToken_of_atom {t : Token} (atom : t.isContainer = false) {k : Keyword}
    (key : t.Carries k) : ofToken t = ofAtom k t := by
  unfold ofToken
  rw [keyword?_eq_some_iff.mpr key]
  cases t with
  | container i opening ts => cases atom
  | _ => rfl

theorem ofToken_of_container {i : Text} {k : Keyword} (key : (container i opening ts).Carries k) :
    ofToken (.container i opening ts) = ofContainer k i.display opening ts := by
  unfold ofToken
  rw [keyword?_eq_some_iff.mpr key]
  rfl

theorem isMalformed_ofAtom_rootDuration {t : Token} :
    (ofAtom .rootDuration t).IsMalformed ↔ ¬ t.IsDuration := by
  cases t with
  | duration i value =>
    exact iff_of_false (not_isMalformed_instruct _) (not_not_intro ⟨i, value, rfl⟩)
  | _ =>
    refine iff_of_true (isMalformed_malformed _ _) ?_
    rintro ⟨_, _, h⟩
    cases h

theorem malformed_of_atom {t : Token} (atom : t.isContainer = false) {k : Keyword}
    (key : t.Carries k) (h : (ofAtom k t).IsMalformed) : t.Malformed := by
  cases k with
  | rootDuration => exact .root atom key (isMalformed_ofAtom_rootDuration.mp h)
  | innerNode => exact .node atom (.inl key) (isMalformed_ofNode.mp h)
  | leafNode => exact .node atom (.inr key) (isMalformed_ofNode.mp h)
  | stackMode => exact .mode atom key (isMalformed_ofMode.mp h)
  | performerId | instrumentId | title | metadataKey | metadataValue | rehearsalMarking =>
    exact .text atom (by decide) key (isMalformed_ofPayload.mp h)
  | _ => simp [ofAtom, shared?] at h

theorem malformed_of_container {i : Text} {k : Keyword} (key : (container i opening ts).Carries k)
    (h : (ofContainer k name opening ts).IsMalformed) :
    (container i opening ts).Malformed := by
  cases k with
  | tempoMarking =>
    rcases isMalformed_ofTempo.mp h with ⟨u, hu, inner, payload⟩ | missing
    · exact .tempoNumber key hu inner payload
    · exact .noTempo key missing
  | dynamicMarking =>
    obtain ⟨u, hu, inner, payload⟩ := isMalformed_ofDynamics.mp h
    exact .dynamic key hu inner payload
  | performerDeclaration =>
    rcases isMalformed_ofDeclaration.mp h with ⟨u, first, payload⟩ | ⟨missing, unnamed⟩ | spoiled
    · exact .performer key first payload
    · exact .noPerformer key missing unnamed
    · exact .instrument key spoiled
  | _ => simp [ofContainer, shared?] at h

theorem isMalformed_of_malformed {t : Token} (h : t.Malformed) : (ofToken t).IsMalformed := by
  cases h with
  | root atom key payload =>
    rw [ofToken_of_atom atom key]
    exact isMalformed_ofAtom_rootDuration.mpr payload
  | node atom key payload =>
    rcases key with key | key <;> rw [ofToken_of_atom atom key] <;>
      exact isMalformed_ofNode.mpr payload
  | mode atom key payload =>
    rw [ofToken_of_atom atom key]
    exact isMalformed_ofMode.mpr payload
  | text atom hk key payload =>
    rw [ofToken_of_atom atom key]
    simp only [textKeywords, List.mem_cons, List.not_mem_nil, or_false] at hk
    rcases hk with rfl | rfl | rfl | rfl | rfl | rfl <;> exact isMalformed_ofPayload.mpr payload
  | tempoNumber key hu inner payload =>
    rw [ofToken_of_container key]
    exact isMalformed_ofTempo.mpr (.inl ⟨_, hu, inner, payload⟩)
  | noTempo key missing =>
    rw [ofToken_of_container key]
    exact isMalformed_ofTempo.mpr (.inr missing)
  | dynamic key hu inner payload =>
    rw [ofToken_of_container key]
    exact isMalformed_ofDynamics.mpr ⟨_, hu, inner, payload⟩
  | performer key first payload =>
    rw [ofToken_of_container key]
    exact isMalformed_ofDeclaration.mpr (.inl ⟨_, first, payload⟩)
  | noPerformer key missing unnamed =>
    rw [ofToken_of_container key]
    exact isMalformed_ofDeclaration.mpr (.inr (.inl ⟨missing, unnamed⟩))
  | instrument key spoiled =>
    rw [ofToken_of_container key]
    exact isMalformed_ofDeclaration.mpr (.inr (.inr spoiled))

/-- **Reading a token finds exactly its faults.** -/
theorem isMalformed_ofToken {t : Token} : (ofToken t).IsMalformed ↔ t.Malformed := by
  refine ⟨fun h => ?_, isMalformed_of_malformed⟩
  cases hk : t.keyword? with
  | none =>
    rw [ofToken, hk] at h
    exact absurd h not_isMalformed_unrecognized
  | some k =>
    have key : t.Carries k := keyword?_eq_some_iff.mp hk
    cases hc : t.isContainer with
    | false =>
      rw [ofToken_of_atom hc key] at h
      exact malformed_of_atom hc key h
    | true =>
      cases t with
      | container i opening ts =>
        rw [ofToken_of_container key] at h
        exact malformed_of_container key h
      | _ => cases hc

end Reading

theorem Token.isWellFormed_iff {t : Token} : t.isWellFormed = true ↔ ¬ t.Malformed := by
  rw [← Reading.isMalformed_ofToken, isWellFormed]
  cases Reading.ofToken t with
  | malformed before m =>
    exact iff_of_false Bool.false_ne_true (not_not_intro (Reading.isMalformed_malformed before m))
  | unrecognized => exact iff_of_true rfl Reading.not_isMalformed_unrecognized
  | instruct i => exact iff_of_true rfl (Reading.not_isMalformed_instruct i)

/-- What comes after an unknown instrument type is not looked at. -/
example : ¬ (Token.container "PerformerDeclaration" (some ("Soloist" : Text))
    [.text "InstrumentType" "Kazoo", .int "InstrumentID" 1 none]).Malformed :=
  Token.isWellFormed_iff.mp (by decide +kernel)

/-- **A stream parses leniently exactly if no token is malformed.** -/
theorem exists_build_lenient_iff (ts : List Token) :
    (∃ score, build false ts = .ok score) ↔ ∀ t ∈ ts, ¬ t.Malformed := by
  simp only [build_lenient_eq_ok, Token.isWellFormed_iff, exists_and_left, exists_eq', and_true]

end RhythmTree
