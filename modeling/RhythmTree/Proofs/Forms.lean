import RhythmTree.Proofs.Malformed

/-!
# Forms of tokens

An atomic token and a container may mean different things under one keyword, and some keywords mean
something in one of the two forms only. So a token is recognized by its keyword and its form.

* `Token.IsHandled`: the keyword means something for tokens of this form.
* `exists_keyword_of_instruction?`, `exists_instruction?_of_carries`: **an instruction comes from
  its own keywords only, and a well-formed token under one of them asks for it.**
* `ofToken_eq_unrecognized_iff`: a token is passed over exactly if it is not handled.
* `length_events`: how many events a well-formed token asks for.
-/

namespace RhythmTree

/-! ### Keywords for a form -/

namespace Keyword

/-- The keywords of events without payload. -/
def markers : List Keyword := [.rest, .slurStart, .slurStop, .extensionStart, .extensionStop]

/-- The keywords of switches to one mode. -/
def switches : List Keyword := [.stackModeMeasure, .stackModeIncrement, .stackModeDecrement]

/-- The keywords that mean something for an atomic token, or for a container. -/
def known (container : Bool) : List Keyword :=
  .measure :: switches ++ markers ++
    if container then [.performerDeclaration, .tempoMarking, .pitch, .dynamicMarking, .articulation]
    else [.stackMode, .rootDuration, .innerNode, .leafNode, .performerId, .instrumentId, .title,
      .metadataKey, .metadataValue, .rehearsalMarking]

end Keyword

/-- The keywords under which an atomic token, or a container, asks for such an instruction. -/
def Instruction.keywords (container : Bool) : Instruction → List Keyword
  | .openMeasure => [.measure]
  | .setMode _ => Keyword.switches ++ if container then [] else [.stackMode]
  | .addRoot _ => if container then [] else [.rootDuration]
  | .addInner _ _ => if container then [] else [.innerNode]
  | .addLeaf _ _ => if container then [] else [.leafNode]
  | .setPerformer _ => if container then [] else [.performerId]
  | .setInstrument _ => if container then [] else [.instrumentId]
  | .setTitle _ => if container then [] else [.title]
  | .setKey _ => if container then [] else [.metadataKey]
  | .storeValue _ => if container then [] else [.metadataValue]
  | .markRehearsal _ => if container then [] else [.rehearsalMarking]
  | .markTempo _ _ => if container then [.tempoMarking] else []
  | .declare _ _ => if container then [.performerDeclaration] else []
  | .rejectDeclaration _ _ => if container then [.performerDeclaration] else []
  | .attach _ =>
    Keyword.markers ++ if container then [.pitch, .dynamicMarking, .articulation] else []

namespace Token

/-! ### Tokens under a keyword -/

instance (t : Token) (k : Keyword) : Decidable (t.Carries k) :=
  inferInstanceAs (Decidable (t.identifier = k.spelling))

/-- An atomic token under a keyword. -/
def IsAtomOf (t : Token) (k : Keyword) : Prop := t.isContainer = false ∧ t.Carries k

/-- A container under a keyword. -/
def IsContainerOf (t : Token) (k : Keyword) : Prop := t.isContainer = true ∧ t.Carries k

/-- The keyword of the token means something for tokens of this form. -/
def IsHandled (t : Token) : Prop := ∃ k ∈ Keyword.known t.isContainer, t.Carries k

instance (t : Token) (k : Keyword) : Decidable (t.IsAtomOf k) :=
  inferInstanceAs (Decidable (t.isContainer = false ∧ t.Carries k))

instance (t : Token) (k : Keyword) : Decidable (t.IsContainerOf k) :=
  inferInstanceAs (Decidable (t.isContainer = true ∧ t.Carries k))

instance (t : Token) : Decidable t.IsHandled :=
  inferInstanceAs (Decidable (∃ k ∈ Keyword.known t.isContainer, t.Carries k))

theorem isAtomOf_of_mem {t : Token} {k : Keyword} {ks : List Keyword}
    (h : k ∈ if t.isContainer then [] else ks) (hc : t.Carries k) : k ∈ ks ∧ t.IsAtomOf k := by
  split at h
  · cases h
  · next hf => exact ⟨h, eq_false_of_ne_true hf, hc⟩

theorem isContainerOf_of_mem {t : Token} {k : Keyword} {ks : List Keyword}
    (h : k ∈ if t.isContainer then ks else []) (hc : t.Carries k) :
    k ∈ ks ∧ t.IsContainerOf k := by
  split at h
  · next hf => exact ⟨h, hf, hc⟩
  · cases h

theorem Carries.unique {t : Token} {k k' : Keyword} (h : t.Carries k) (h' : t.Carries k') :
    k = k' := by
  rw [← keyword?_eq_some_iff] at h h'
  exact Option.some.inj (h.symm.trans h')

end Token

open Token

namespace Reading

/-! ### Readings by keyword -/

/-- The reading gives an instruction with a keyword, or it finds a fault. -/
def Asks (container : Bool) (k : Keyword) (r : Reading) : Prop :=
  r.IsMalformed ∨ ∃ i, r = .instruct i ∧ k ∈ i.keywords container

variable {container : Bool} {k : Keyword} {t : Token} {ts : List Token} {name : String}
  {opening : Option Text}

theorem asks_instruct {i : Instruction} (h : k ∈ i.keywords container) :
    (instruct i).Asks container k := .inr ⟨i, rfl, h⟩

theorem asks_malformed (before : List Event) (m : Malformation) :
    (malformed before m).Asks container k := .inl (isMalformed_malformed before m)

theorem asks_ofPayload {α : Type} {payload : Except Malformation α} {f : α → Instruction}
    (h : ∀ value, k ∈ (f value).keywords container) : (ofPayload payload f).Asks container k := by
  cases payload with
  | ok value => exact asks_instruct (h value)
  | error m => exact asks_malformed [] m

theorem asks_ofNode {f : Int → Level → Instruction}
    (h : ∀ beats level, k ∈ (f beats level).keywords container) :
    (ofNode t f).Asks container k := by
  unfold ofNode
  split
  · exact asks_instruct (h _ _)
  · exact asks_malformed _ _

theorem asks_ofMode : (ofMode t).Asks false .stackMode := by
  unfold ofMode
  split
  · exact asks_malformed _ _
  · split
    · exact asks_instruct (by simp [Instruction.keywords])
    · exact asks_malformed _ _

theorem asks_ofTempo : (ofTempo name ts).Asks true .tempoMarking := by
  unfold ofTempo
  split
  · exact asks_malformed _ _
  · exact asks_malformed _ _
  · exact asks_instruct (by simp [Instruction.keywords])

theorem asks_ofInstruments {performer : Text} :
    (ofInstruments performer ts).Asks true .performerDeclaration := by
  unfold ofInstruments
  split
  · exact asks_instruct (by simp [Instruction.keywords])
  · exact asks_malformed _ _
  · exact asks_instruct (by simp [Instruction.keywords])

theorem asks_ofDeclaration : (ofDeclaration name opening ts).Asks true .performerDeclaration := by
  unfold ofDeclaration
  split
  · exact asks_malformed _ _
  · exact asks_malformed _ _
  · split
    · exact asks_malformed _ _
    · exact asks_ofInstruments

theorem asks_ofDynamics : (ofDynamics ts).Asks true .dynamicMarking := by
  unfold ofDynamics
  split
  · exact asks_instruct (by simp [Instruction.keywords])
  · exact asks_malformed _ _

theorem asks_ofAtom (h : k ∈ Keyword.known false) : (ofAtom k t).Asks false k := by
  cases k with
  | stackMode => exact asks_ofMode
  | rootDuration =>
    cases t with
    | duration identifier value => exact asks_instruct (by simp [Instruction.keywords])
    | _ => exact asks_malformed _ _
  | innerNode | leafNode => exact asks_ofNode (by simp [Instruction.keywords])
  | performerId | instrumentId | title | metadataKey | metadataValue | rehearsalMarking =>
    exact asks_ofPayload (by simp [Instruction.keywords])
  | measure | stackModeMeasure | stackModeIncrement | stackModeDecrement | rest | slurStart
  | slurStop | extensionStart | extensionStop =>
    exact asks_instruct (by simp [Instruction.keywords, Keyword.switches, Keyword.markers])
  | _ => exact absurd h (by decide)

theorem asks_ofContainer (h : k ∈ Keyword.known true) :
    (ofContainer k name opening ts).Asks true k := by
  cases k with
  | performerDeclaration => exact asks_ofDeclaration
  | tempoMarking => exact asks_ofTempo
  | dynamicMarking => exact asks_ofDynamics
  | pitch | articulation | measure | stackModeMeasure | stackModeIncrement | stackModeDecrement
  | rest | slurStart | slurStop | extensionStart | extensionStop =>
    exact asks_instruct (by simp [Instruction.keywords, Keyword.switches, Keyword.markers])
  | _ => exact absurd h (by decide)

theorem ofAtom_of_not_known (h : k ∉ Keyword.known false) : ofAtom k t = .unrecognized := by
  cases k with
  | instrumentType | performerDeclaration | tempoMarking | pitch | dynamicMarking | articulation
  | value | subdivisionValue | spannerStart | spannerStop => rfl
  | _ => exact absurd (by decide) h

theorem ofContainer_of_not_known (h : k ∉ Keyword.known true) :
    ofContainer k name opening ts = .unrecognized := by
  cases k with
  | performerDeclaration | tempoMarking | pitch | dynamicMarking | articulation | measure
  | stackModeMeasure | stackModeIncrement | stackModeDecrement | rest | slurStart | slurStop
  | extensionStart | extensionStop => exact absurd (by decide) h
  | _ => rfl

/-- Some keywords mean the same in an atomic token and in a container. -/
theorem ofToken_of_shared? {i : Instruction} (h : shared? k = some i) (hc : t.Carries k) :
    ofToken t = .instruct i := by
  have ha : ∀ u, ofAtom k u = .instruct i := by
    intro u
    cases k <;> cases h <;> rfl
  have hi : ∀ name opening ts, ofContainer k name opening ts = .instruct i := by
    intro name opening ts
    cases k <;> cases h <;> rfl
  cases t with
  | container name opening ts => rw [ofToken_of_container hc, hi]
  | _ => rw [ofToken_of_atom rfl hc, ha]

/-- **A token is passed over, or it is read under a keyword for its form.** -/
theorem ofToken_cases (t : Token) :
    (¬ t.IsHandled ∧ ofToken t = .unrecognized) ∨
      ∃ k ∈ Keyword.known t.isContainer, t.Carries k ∧ (ofToken t).Asks t.isContainer k := by
  cases hk : t.keyword? with
  | none =>
    refine .inl ⟨?_, by rw [ofToken, hk]⟩
    rintro ⟨k, -, hc⟩
    rw [keyword?_eq_some_iff.mpr hc] at hk
    cases hk
  | some k =>
    have hc : t.Carries k := keyword?_eq_some_iff.mp hk
    by_cases hn : k ∈ Keyword.known t.isContainer
    · refine .inr ⟨k, hn, hc, ?_⟩
      cases t with
      | container name opening ts =>
        rw [ofToken_of_container hc]
        exact asks_ofContainer hn
      | _ =>
        rw [ofToken_of_atom rfl hc]
        exact asks_ofAtom hn
    · refine .inl ⟨?_, ?_⟩
      · rintro ⟨k', hk', hc'⟩
        exact hn (hc.unique hc' ▸ hk')
      · cases t with
        | container name opening ts =>
          rw [ofToken_of_container hc]
          exact ofContainer_of_not_known hn
        | _ =>
          rw [ofToken_of_atom rfl hc]
          exact ofAtom_of_not_known hn

/-- A token is passed over exactly if its keyword means nothing for its form. -/
theorem ofToken_eq_unrecognized_iff {t : Token} : ofToken t = .unrecognized ↔ ¬ t.IsHandled := by
  rcases ofToken_cases t with ⟨hn, h⟩ | ⟨k, hk, hc, h⟩
  · exact iff_of_true h hn
  · refine iff_of_false (fun hu => ?_) (not_not_intro ⟨k, hk, hc⟩)
    rw [hu] at h
    rcases h with h | ⟨i, h, -⟩
    · exact not_isMalformed_unrecognized h
    · cases h

end Reading

namespace Token

/-! ### Instructions by keyword -/

variable {t : Token} {k : Keyword} {i : Instruction}

/-- **An instruction comes from its own keywords only.** -/
theorem exists_keyword_of_instruction? (h : t.instruction? = some i) :
    ∃ k ∈ i.keywords t.isContainer, t.Carries k := by
  have hr := ofToken_of_instruction? h
  rcases Reading.ofToken_cases t with ⟨-, hu⟩ | ⟨k, -, hc, ha⟩
  · rw [hu] at hr
    cases hr
  · rw [hr] at ha
    rcases ha with hm | ⟨j, hj, hk⟩
    · exact absurd hm (Reading.not_isMalformed_instruct i)
    · obtain rfl := Reading.instruct.inj hj
      exact ⟨k, hk, hc⟩

/-- **A well-formed token under a keyword for its form asks for an instruction of the keyword.** -/
theorem exists_instruction?_of_carries (hw : t.isWellFormed = true) (hc : t.Carries k)
    (hk : k ∈ Keyword.known t.isContainer) :
    ∃ i, t.instruction? = some i ∧ k ∈ i.keywords t.isContainer := by
  rcases Reading.ofToken_cases t with ⟨hn, -⟩ | ⟨k', -, hc', ha⟩
  · exact absurd ⟨k, hk, hc⟩ hn
  · obtain rfl := hc.unique hc'
    rcases ha with hm | ⟨i, hi, hki⟩
    · exact absurd (Reading.isMalformed_ofToken.mp hm) (isWellFormed_iff.mp hw)
    · exact ⟨i, by rw [instruction?, hi], hki⟩

/-! ### Events -/

/-- The tokens directly inside a container. -/
def nested : Token → List Token
  | .container _ _ ts => ts
  | _ => []

/-- The token stands for an event inside a dynamic. -/
def IsDynamicEvent (t : Token) : Prop :=
  ∃ k ∈ [Keyword.value, .spannerStart, .spannerStop], t.Carries k

instance (t : Token) : Decidable t.IsDynamicEvent :=
  inferInstanceAs (Decidable (∃ k ∈ [Keyword.value, .spannerStart, .spannerStop], t.Carries k))

theorem isDynamicEvent_iff : t.IsDynamicEvent ↔ t.keyword? = some .value ∨
    t.keyword? = some .spannerStart ∨ t.keyword? = some .spannerStop := by
  simp [IsDynamicEvent, keyword?_eq_some_iff]

/-- The token stands for one event: pitches and articulations do so as containers, events without
payload in either form. -/
def IsEvent (t : Token) : Prop :=
  t.IsContainerOf .pitch ∨ t.IsContainerOf .articulation ∨ ∃ k ∈ Keyword.markers, t.Carries k

instance (t : Token) : Decidable t.IsEvent :=
  inferInstanceAs (Decidable (t.IsContainerOf .pitch ∨ t.IsContainerOf .articulation ∨
    ∃ k ∈ Keyword.markers, t.Carries k))

/-- How many events the token stands for; a dynamic has one for each event directly inside. -/
def eventCount (t : Token) : Nat :=
  if t.IsEvent then 1
  else if t.IsContainerOf .dynamicMarking then t.nested.countP fun u => u.IsDynamicEvent
  else 0

end Token

/-- The events that an instruction attaches. -/
def Instruction.events : Instruction → List Event
  | .attach events => events
  | _ => []

/-- The events that a token asks for. -/
def Token.events (t : Token) : List Event := t.instruction?.elim [] Instruction.events

namespace Reading

theorem length_dynamics {ts : List Token} (h : (dynamics ts).2 = none) :
    (dynamics ts).1.length = ts.countP fun u => u.IsDynamicEvent := by
  induction ts with
  | nil => rfl
  | cons t rest ih =>
    simp only [List.countP_cons, isDynamicEvent_iff, dynamics] at h ih ⊢
    split at h
    · next hk =>
      rcases textPayload_cases t with ⟨i, value, rfl, hp⟩ | ⟨-, m, hp⟩
      · simp only [hp] at h
        simp [hk, hp, ih h]
      · simp only [hp] at h
        cases h
    · next hk => simp [hk, ih h]
    · next hk => simp [hk, ih h]
    · next hv hs hp => simp [eq_false hv, eq_false hs, eq_false hp, ih h]

end Reading

namespace Token

variable {t : Token} {k : Keyword}

theorem events_of_ofToken {events : List Event}
    (h : Reading.ofToken t = .instruct (.attach events)) : t.events = events := by
  rw [Token.events, instruction?, h]
  rfl

theorem length_events_of_marker (hk : k ∈ Keyword.markers) (hc : t.Carries k) :
    t.events.length = 1 := by
  have hs : ∃ event, Reading.shared? k = some (.attach [event]) := by
    cases k with
    | rest | slurStart | slurStop | extensionStart | extensionStop => exact ⟨_, rfl⟩
    | _ => exact absurd hk (by decide)
  obtain ⟨event, he⟩ := hs
  rw [events_of_ofToken (Reading.ofToken_of_shared? he hc), List.length_singleton]

theorem length_events_of_isEvent (h : t.IsEvent) : t.events.length = 1 := by
  rcases h with ⟨hf, hc⟩ | ⟨hf, hc⟩ | ⟨k, hk, hc⟩
  · cases t with
    | container name opening ts =>
      rw [events_of_ofToken (Reading.ofToken_of_container hc), List.length_singleton]
    | _ => cases hf
  · cases t with
    | container name opening ts =>
      rw [events_of_ofToken (Reading.ofToken_of_container hc), List.length_singleton]
    | _ => cases hf
  · exact length_events_of_marker hk hc

theorem length_events_of_dynamic (hw : t.isWellFormed = true)
    (h : t.IsContainerOf .dynamicMarking) :
    t.events.length = t.nested.countP fun u => u.IsDynamicEvent := by
  obtain ⟨hf, hc⟩ := h
  cases t with
  | container name opening ts =>
    have hr : Reading.ofToken (.container name opening ts) = Reading.ofDynamics ts :=
      Reading.ofToken_of_container hc
    cases hd : (Reading.dynamics ts).2 with
    | none =>
      have hi : Reading.ofDynamics ts = .instruct (.attach (Reading.dynamics ts).1) := by
        rw [Reading.ofDynamics, ← Prod.eta (Reading.dynamics ts), hd]
      rw [events_of_ofToken (hr.trans hi)]
      exact Reading.length_dynamics hd
    | some m =>
      have hm : (Reading.ofDynamics ts).IsMalformed :=
        Reading.isMalformed_ofDynamics.mpr (Reading.dynamics_ne_none_iff.mp (by rw [hd]; simp))
      rw [← hr, Reading.isMalformed_ofToken] at hm
      exact absurd hm (isWellFormed_iff.mp hw)
  | _ => cases hf

/-- **A well-formed token asks for as many events as it stands for.** -/
theorem length_events (hw : t.isWellFormed = true) : t.events.length = t.eventCount := by
  unfold eventCount
  split
  · next h => exact length_events_of_isEvent h
  · next he =>
    split
    · next hd => exact length_events_of_dynamic hw hd
    · next hd =>
      -- the keywords of all other instructions stand for no event
      cases hi : t.instruction? with
      | none => rw [Token.events, hi]; rfl
      | some i =>
        obtain ⟨k, hk, hc⟩ := exists_keyword_of_instruction? hi
        cases i with
        | attach events =>
          exfalso
          rcases List.mem_append.mp hk with hm | hm
          · exact he (.inr (.inr ⟨k, hm, hc⟩))
          · split at hm
            · next hf =>
              simp only [List.mem_cons, List.not_mem_nil, or_false] at hm
              rcases hm with rfl | rfl | rfl
              · exact he (.inl ⟨hf, hc⟩)
              · exact hd ⟨hf, hc⟩
              · exact he (.inr (.inl ⟨hf, hc⟩))
            · cases hm
        | _ => rw [Token.events, hi]; rfl

end Token

end RhythmTree
