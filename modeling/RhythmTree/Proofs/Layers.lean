import RhythmTree.Proofs.Bare
import RhythmTree.Proofs.Findings
import RhythmTree.Proofs.Forms
import RhythmTree.Proofs.Parts
import RhythmTree.Proofs.Plain

/-!
# Layers of a stream

Three kinds of tokens share a builder without ever meeting: those that build measures and trees,
those that declare performers, and those about the title and the metadata. What each kind leaves in
the score depends on the tokens of that kind alone, whatever comes between them.

* `Layer`: a view of the state that some tokens change by what it shows and no others change.
  `Layer.view_reached`: **behind a stream it is what the tokens of the layer alone would leave.**
* `layer_skeleton`, `layer_performers`, `layer_imprint`: the three layers.
* `layers_independent`: **two streams that agree in the tokens of a layer agree in what the layer
  leaves in the score.**
-/

namespace RhythmTree

open BuilderState

/-! ### Layers -/

/-- A view of the state that only some tokens change, and these by what it shows. -/
structure Layer {α : Type} (belongs : Token → Prop) (view : BuilderState → α) : Prop where
  /-- What a token of the layer does to the view depends on the view. -/
  consistent : ∀ {s s' : BuilderState} (i j : Nat) (t : Token), belongs t → view s = view s' →
    view (s.after i t) = view (s'.after j t)
  /-- Other tokens leave the view as it is. -/
  respects : ∀ (s : BuilderState) (i : Nat) (t : Token), ¬ belongs t → view (s.after i t) = view s

namespace Layer

variable {α : Type} {belongs : Token → Prop} [DecidablePred belongs] {view : BuilderState → α}

/-- **Behind a stream the view is what the tokens of the layer alone would leave.** -/
theorem view_reached (h : Layer belongs view) (ts : List Token) :
    view (reached ts) = view (reached (ts.filter fun t => belongs t)) := by
  induction ts using List.reverseRecOn with
  | nil => rfl
  | append_singleton ts t ih =>
    rw [reached_concat, List.filter_append]
    by_cases ht : belongs t
    · have hf : [t].filter (fun t => belongs t) = [t] := by simp [ht]
      rw [hf, reached_concat]
      exact h.consistent _ _ t ht ih
    · have hf : [t].filter (fun t => belongs t) = [] := by simp [ht]
      rw [hf, List.append_nil, h.respects _ _ t ht, ih]

theorem view_reached_eq (h : Layer belongs view) {ts us : List Token}
    (he : ts.filter (fun t => belongs t) = us.filter fun t => belongs t) :
    view (reached ts) = view (reached us) := by
  rw [h.view_reached ts, he, ← h.view_reached us]

omit [DecidablePred belongs]

theorem view_after_of_none
    (passes : ∀ (s : BuilderState) (index : Nat) (kind : String) (identifier : Text),
      view (s.record (.unrecognized index kind identifier)) = view s)
    {t : Token} (h : t.instruction? = none) (s : BuilderState) (a : Nat) :
    view (s.after a t) = view s := by
  rcases after_of_instruction?_eq_none h s a with e | e <;> rw [e]
  exact passes s a t.kind t.identifier

/-- A layer can be told by the instructions that change the view. -/
theorem of_perform {concerns : Instruction → Bool}
    (tokens : ∀ {t : Token} {i : Instruction}, t.instruction? = some i → concerns i = true →
      belongs t)
    (passes : ∀ (s : BuilderState) (index : Nat) (kind : String) (identifier : Text),
      view (s.record (.unrecognized index kind identifier)) = view s)
    (inside : ∀ {i : Instruction} {s s' : BuilderState} (a b : Nat) (identifier : String),
      concerns i = true → view s = view s' →
        view (s.perform a identifier i) = view (s'.perform b identifier i))
    (outside : ∀ {i : Instruction} (s : BuilderState) (a : Nat) (identifier : String),
      concerns i = false → view (s.perform a identifier i) = view s) : Layer belongs view where
  consistent := by
    intro s s' a b t _ h
    cases hi : t.instruction? with
    | none => rw [view_after_of_none passes hi, view_after_of_none passes hi, h]
    | some i =>
      rw [after_of_instruction? hi, after_of_instruction? hi]
      cases hc : concerns i with
      | true => exact inside a b t.name hc h
      | false => rw [outside s a t.name hc, outside s' b t.name hc, h]
  respects := by
    intro s a t ht
    cases hi : t.instruction? with
    | none => exact view_after_of_none passes hi s a
    | some i =>
      rw [after_of_instruction? hi]
      exact outside s a t.name (eq_false_of_ne_true fun hc => ht (tokens hi hc))

end Layer

/-! ### The structure -/

/-- The codes of the issues about the structure. -/
def structuralCodes : List String :=
  ["STACK_UNDERFLOW", "NO_OPEN_CONTAINER", "NEGATIVE_ACCUMULATOR", "BEAT_WEIGHT"]

/-- An instruction that builds measures and trees. -/
def Instruction.isStructural : Instruction → Bool
  | .openMeasure | .setMode _ | .addRoot _ | .addInner _ _ | .addLeaf _ _ => true
  | _ => false

/-- A token that builds measures and trees, in a form in which it is read. -/
def Token.IsStructural (t : Token) : Prop :=
  (∃ k ∈ Keyword.measure :: Keyword.switches, t.Carries k) ∨
    ∃ k ∈ [Keyword.stackMode, .rootDuration, .innerNode, .leafNode], t.IsAtomOf k

instance (t : Token) : Decidable t.IsStructural :=
  inferInstanceAs (Decidable ((∃ k ∈ Keyword.measure :: Keyword.switches, t.Carries k) ∨
    ∃ k ∈ [Keyword.stackMode, .rootDuration, .innerNode, .leafNode], t.IsAtomOf k))

theorem Token.isStructural_of_instruction? {t : Token} {i : Instruction}
    (h : t.instruction? = some i) (hi : i.isStructural = true) : t.IsStructural := by
  obtain ⟨k, hk, hc⟩ := exists_keyword_of_instruction? h
  cases i with
  | openMeasure => exact .inl ⟨k, List.mem_cons.mpr (.inl (List.mem_singleton.mp hk)), hc⟩
  | setMode mode =>
    rcases List.mem_append.mp hk with hk | hk
    · exact .inl ⟨k, List.mem_cons_of_mem _ hk, hc⟩
    · obtain ⟨hk, ha⟩ := isAtomOf_of_mem hk hc
      exact .inr ⟨k, List.mem_cons.mpr (.inl (List.mem_singleton.mp hk)), ha⟩
  | addRoot _ | addInner _ _ | addLeaf _ _ =>
    obtain ⟨hk, ha⟩ := isAtomOf_of_mem hk hc
    rw [List.mem_singleton.mp hk] at ha
    exact .inr ⟨_, by simp, ha⟩
  | _ => cases hi

namespace Finding

/-- The finding without the number of its token. -/
def unplaced : Finding → Finding
  | .unrecognized _ kind identifier => .unrecognized 0 kind identifier
  | .clamped _ back elapsed => .clamped 0 back elapsed
  | .underflow _ needed closed => .underflow 0 needed closed
  | .noContainer _ identifier beats => .noContainer 0 identifier beats
  | .orphanValue _ value => .orphanValue 0 value
  | .missingContext _ identifier lacks => .missingContext 0 identifier lacks
  | .unknownInstrument _ performer typeName => .unknownInstrument 0 performer typeName
  | .indivisible problem => .indivisible problem

theorem code_unplaced (f : Finding) : f.unplaced.code = f.code := by
  cases f <;> rfl

theorem message_unplaced (f : Finding) : f.unplaced.message = f.message := by
  cases f <;> rfl

/-- A finding about the structure. -/
def isStructural (f : Finding) : Bool := f.code ∈ structuralCodes

end Finding

namespace BuilderState

/-- What matters to measures and trees in a state: the trees without components, and the findings
about the structure without the numbers of their tokens. -/
def skeleton (s : BuilderState) : BuilderState :=
  { stack := s.stack
    mode := s.mode
    leaf := s.leaf
    measureStart := s.measureStart
    elapsed := s.elapsed
    position := s.position
    depth := s.depth
    measures := s.measures
    forest := s.forest.bare
    findings := (s.findings.filter Finding.isStructural).map Finding.unplaced }

theorem skeleton_record {f : Finding} (h : f.isStructural = true) (s : BuilderState) :
    (s.record f).skeleton = s.skeleton.record f.unplaced := by
  simp only [skeleton, record, List.filter_append, List.filter_cons, h, if_true, List.filter_nil,
    List.map_append, List.map_singleton]

theorem skeleton_record_of_not {f : Finding} (h : f.isStructural = false) (s : BuilderState) :
    (s.record f).skeleton = s.skeleton := by
  simp only [skeleton, record, List.filter_append, List.filter_cons, h, if_neg Bool.false_ne_true,
    List.filter_nil, List.append_nil]

theorem skeleton_closeMeasure (s : BuilderState) :
    s.closeMeasure.skeleton = s.skeleton.closeMeasure := by
  unfold closeMeasure
  rw [apply_ite skeleton]
  rfl

theorem skeleton_openMeasure (s : BuilderState) :
    s.openMeasure.skeleton = s.skeleton.openMeasure :=
  congrArg appendMeasure (skeleton_closeMeasure s)

theorem skeleton_setMode (mode : StackMode) (s : BuilderState) :
    (s.setMode mode).skeleton = s.skeleton.setMode mode := by
  cases mode <;> rfl

theorem skeleton_addRootAt (d offset : Duration) (s : BuilderState) :
    (s.addRootAt d offset).skeleton = s.skeleton.addRootAt d offset := by
  simp only [skeleton, addRootAt, Forest.bare_append]
  rfl

theorem skeleton_stepBack (index : Nat) (back : Duration) (s : BuilderState) :
    (s.stepBack index back).skeleton = s.skeleton.stepBack 0 back := by
  unfold stepBack
  cases h : s.elapsed.sub? back with
  | some rest =>
    rw [show s.skeleton.elapsed.sub? back = some rest from h]
    rfl
  | none =>
    rw [show s.skeleton.elapsed.sub? back = none from h]
    have hr := @skeleton_record (.clamped index back s.elapsed) rfl s
    exact congrArg (fun x : BuilderState => { x with elapsed := .zero }) hr

theorem openNode?_skeleton (s : BuilderState) :
    s.skeleton.openNode? = s.openNode?.map Tree.bare := by
  show s.stack.top?.bind (fun path => s.forest.bare.subtreeAt ⟨s.forest.bare.length - 1, path⟩) =
    (s.stack.top?.bind fun path => s.forest.subtreeAt ⟨s.forest.length - 1, path⟩).map Tree.bare
  cases s.stack.top? with
  | none => rfl
  | some path =>
    rw [Option.bind_some, Option.bind_some, Forest.length_bare, Forest.subtreeAt_bare]

theorem skeleton_addRoot (index : Nat) (d : Duration) (s : BuilderState) :
    (s.addRoot index d).skeleton = s.skeleton.addRoot 0 d := by
  cases h : s.mode with
  | measure =>
    rw [addRoot_of_measure h, addRoot_of_measure (s := s.skeleton) h, skeleton_addRootAt]
    rfl
  | increment =>
    rw [addRoot_of_increment h, addRoot_of_increment (s := s.skeleton) h, skeleton_addRootAt]
    rfl
  | decrement =>
    have hs := openNode?_skeleton s
    cases ho : s.openNode? with
    | none =>
      rw [ho] at hs
      rw [addRoot_of_decrement_none h ho, addRoot_of_decrement_none (s := s.skeleton) h hs,
        skeleton_addRootAt]
    | some t =>
      rw [ho] at hs
      rw [addRoot_of_decrement_some h ho, addRoot_of_decrement_some (s := s.skeleton) h hs,
        skeleton_addRootAt, skeleton_stepBack, Tree.label_bare]
      rfl

theorem skeleton_closeLevels (index depth : Nat) (s : BuilderState) :
    (s.closeLevels index depth).skeleton = s.skeleton.closeLevels 0 depth := by
  unfold closeLevels
  dsimp only
  rw [apply_ite skeleton, apply_ite skeleton, skeleton_record rfl]
  rfl

theorem skeleton_attachChild (index : Nat) (identifier : String) (beats : Int) (depth : Nat)
    (s : BuilderState) :
    s.skeleton.attachChild 0 identifier beats depth =
      ((s.attachChild index identifier beats depth).1,
        (s.attachChild index identifier beats depth).2.skeleton) := by
  have ht : s.skeleton.stack.top? = s.stack.top? := rfl
  unfold attachChild
  rw [ht]
  cases s.stack.top? with
  | none =>
    exact congrArg (Prod.mk none)
      (@skeleton_record (.noContainer index identifier beats) rfl s).symm
  | some path =>
    have hn := s.forest.nextChild_bare ⟨s.forest.length - 1, path⟩
    have ha := s.forest.bare_addChild beats ⟨s.forest.length - 1, path⟩
    simp only [skeleton, Forest.length_bare, hn, ← ha]

theorem skeleton_attachNode (index : Nat) (identifier : String) (beats : Int) (level : Level)
    (s : BuilderState) :
    s.skeleton.attachNode 0 identifier beats level =
      ((s.attachNode index identifier beats level).1,
        (s.attachNode index identifier beats level).2.skeleton) := by
  rw [attachNode, ← skeleton_closeLevels index, skeleton_attachChild index]
  rfl

theorem skeleton_addInner (index : Nat) (identifier : String) (beats : Int) (level : Level)
    (s : BuilderState) : (s.addInner index identifier beats level).skeleton =
      s.skeleton.addInner 0 identifier beats level := by
  rw [addInner, addInner, skeleton_attachNode index]
  rcases s.attachNode index identifier beats level with ⟨place | place, after⟩ <;> rfl

theorem skeleton_addLeaf (index : Nat) (identifier : String) (beats : Int) (level : Level)
    (s : BuilderState) : (s.addLeaf index identifier beats level).skeleton =
      s.skeleton.addLeaf 0 identifier beats level := by
  rw [addLeaf, addLeaf, skeleton_attachNode index]
  rcases s.attachNode index identifier beats level with ⟨place | place, after⟩ <;> rfl

theorem skeleton_attachEvent (index : Nat) (identifier : String) (s : BuilderState)
    (event : Event) : (s.attachEvent index identifier event).skeleton = s.skeleton := by
  unfold attachEvent
  split
  · simp only [skeleton, Forest.bare_addComponent]
  · exact skeleton_record_of_not rfl s

theorem skeleton_attach (index : Nat) (identifier : String) (events : List Event)
    (s : BuilderState) : (s.attach index identifier events).skeleton = s.skeleton :=
  attach_induction (motive := fun s' => s'.skeleton = s.skeleton) rfl
    fun s' event h => (skeleton_attachEvent index identifier s' event).trans h

/-- **A structural instruction does to the skeleton what it does to the state.** -/
theorem skeleton_perform {i : Instruction} (h : i.isStructural = true) (index : Nat)
    (identifier : String) (s : BuilderState) :
    (s.perform index identifier i).skeleton = s.skeleton.perform 0 identifier i := by
  cases i with
  | openMeasure => exact skeleton_openMeasure s
  | setMode mode => exact skeleton_setMode mode s
  | addRoot d => exact skeleton_addRoot index d s
  | addInner beats level => exact skeleton_addInner index identifier beats level s
  | addLeaf beats level => exact skeleton_addLeaf index identifier beats level s
  | _ => cases h

/-- **Every other instruction leaves the skeleton as it is.** -/
theorem skeleton_perform_of_not {i : Instruction} (h : i.isStructural = false) (index : Nat)
    (identifier : String) (s : BuilderState) :
    (s.perform index identifier i).skeleton = s.skeleton := by
  cases i with
  | openMeasure | setMode _ | addRoot _ | addInner _ _ | addLeaf _ _ => cases h
  | storeValue value =>
    show (s.storeValue index value).skeleton = _
    unfold storeValue
    split
    · exact skeleton_record_of_not rfl s
    · rfl
  | rejectDeclaration performer typeName =>
    exact skeleton_record_of_not (f := .unknownInstrument index performer typeName) rfl s
  | attach events => exact skeleton_attach index identifier events s
  | _ => rfl

theorem skeleton_record_unrecognized (s : BuilderState) (index : Nat) (kind : String)
    (identifier : Text) : (s.record (.unrecognized index kind identifier)).skeleton = s.skeleton :=
  skeleton_record_of_not rfl s

end BuilderState

/-- **The skeleton is a layer.** -/
theorem layer_skeleton : Layer Token.IsStructural skeleton :=
  .of_perform Token.isStructural_of_instruction? skeleton_record_unrecognized
    (fun a b identifier hi h => by rw [skeleton_perform hi, skeleton_perform hi, h])
    (fun s a identifier hi => skeleton_perform_of_not hi a identifier s)

/-! ### Performers and metadata -/

/-- What a score says about the piece without regard to time. -/
structure Catalogue where
  title : Text
  metadata : Table Text Text
  /-- The key that the next value of metadata is stored under. -/
  pendingKey : Option Text
  performers : Table Text Instruments

namespace BuilderState

/-- What a state says about the piece without regard to time. -/
def catalogue (s : BuilderState) : Catalogue := ⟨s.title, s.metadata, s.pendingKey, s.performers⟩

theorem catalogue_closeMeasure (s : BuilderState) : s.closeMeasure.catalogue = s.catalogue := by
  unfold closeMeasure
  split <;> rfl

theorem catalogue_addRoot (index : Nat) (d : Duration) (s : BuilderState) :
    (s.addRoot index d).catalogue = s.catalogue :=
  placeRoot_induction (motive := fun s' => s'.catalogue = s.catalogue) rfl (fun _ _ h => h)
    (fun _ _ h => h) fun _ _ _ h => h

theorem catalogue_attachNode (index : Nat) (identifier : String) (beats : Int) (level : Level)
    (s : BuilderState) :
    (s.attachNode index identifier beats level).2.catalogue = s.catalogue := by
  have hc : (s.closeLevels index level.outer).catalogue = s.catalogue :=
    closeLevels_induction (motive := fun s' => s'.catalogue = s.catalogue) rfl (fun _ _ h => h)
      fun _ _ _ h => h
  rw [← hc, attachNode, attachChild]
  split <;> rfl

theorem catalogue_addInner (index : Nat) (identifier : String) (beats : Int) (level : Level)
    (s : BuilderState) : (s.addInner index identifier beats level).catalogue = s.catalogue :=
  addInner_induction (motive := fun s' => s'.catalogue = s.catalogue)
    (catalogue_attachNode index identifier beats level s) fun _ _ h => h

theorem catalogue_addLeaf (index : Nat) (identifier : String) (beats : Int) (level : Level)
    (s : BuilderState) : (s.addLeaf index identifier beats level).catalogue = s.catalogue :=
  addLeaf_induction (motive := fun s' => s'.catalogue = s.catalogue)
    (catalogue_attachNode index identifier beats level s) fun _ _ h => h

theorem catalogue_attach (index : Nat) (identifier : String) (events : List Event)
    (s : BuilderState) : (s.attach index identifier events).catalogue = s.catalogue :=
  attach_induction (motive := fun s' => s'.catalogue = s.catalogue) rfl fun s' event h => by
    rw [← h, attachEvent]
    split <;> rfl

end BuilderState

/-- An instruction that declares a performer. -/
def Instruction.isDeclaration : Instruction → Bool
  | .declare _ _ | .rejectDeclaration _ _ => true
  | _ => false

/-- An instruction about the title or the metadata. -/
def Instruction.isImprint : Instruction → Bool
  | .setTitle _ | .setKey _ | .storeValue _ => true
  | _ => false

/-- A token about the title or the metadata, in the form in which it is read. -/
def Token.IsImprint (t : Token) : Prop :=
  ∃ k ∈ [Keyword.title, .metadataKey, .metadataValue], t.IsAtomOf k

instance (t : Token) : Decidable t.IsImprint :=
  inferInstanceAs (Decidable (∃ k ∈ [Keyword.title, .metadataKey, .metadataValue], t.IsAtomOf k))

namespace Token

variable {t : Token} {i : Instruction}

theorem isContainerOf_of_isDeclaration (h : t.instruction? = some i) (hi : i.isDeclaration = true) :
    t.IsContainerOf .performerDeclaration := by
  obtain ⟨k, hk, hc⟩ := exists_keyword_of_instruction? h
  cases i with
  | declare _ _ | rejectDeclaration _ _ =>
    obtain ⟨hk, ha⟩ := isContainerOf_of_mem hk hc
    exact List.mem_singleton.mp hk ▸ ha
  | _ => cases hi

theorem isImprint_of_instruction? (h : t.instruction? = some i) (hi : i.isImprint = true) :
    t.IsImprint := by
  obtain ⟨k, hk, hc⟩ := exists_keyword_of_instruction? h
  cases i with
  | setTitle _ | setKey _ | storeValue _ =>
    obtain ⟨hk, ha⟩ := isAtomOf_of_mem hk hc
    rw [List.mem_singleton.mp hk] at ha
    exact ⟨_, by simp, ha⟩
  | _ => cases hi

end Token

namespace BuilderState

/-- The instructions that are neither about performers nor about metadata leave both alone. -/
theorem catalogue_perform {i : Instruction} (hd : i.isDeclaration = false)
    (hh : i.isImprint = false) (index : Nat) (identifier : String) (s : BuilderState) :
    (s.perform index identifier i).catalogue = s.catalogue := by
  cases i with
  | openMeasure => exact catalogue_closeMeasure s
  | setMode mode => cases mode <;> rfl
  | addRoot d => exact catalogue_addRoot index d s
  | addInner beats level => exact catalogue_addInner index identifier beats level s
  | addLeaf beats level => exact catalogue_addLeaf index identifier beats level s
  | attach events => exact catalogue_attach index identifier events s
  | declare _ _ | rejectDeclaration _ _ => cases hd
  | setTitle _ | setKey _ | storeValue _ => cases hh
  | _ => rfl

/-- The title and the metadata, with the key for the next value. -/
def imprint (s : BuilderState) : Text × Table Text Text × Option Text :=
  (s.title, s.metadata, s.pendingKey)

theorem performers_perform_of_not {i : Instruction} (h : i.isDeclaration = false) (index : Nat)
    (identifier : String) (s : BuilderState) :
    (s.perform index identifier i).performers = s.performers := by
  cases hh : i.isImprint with
  | false => exact congrArg Catalogue.performers (catalogue_perform h hh index identifier s)
  | true =>
    cases i with
    | storeValue value =>
      show (s.storeValue index value).performers = _
      unfold storeValue
      split <;> rfl
    | setTitle _ | setKey _ => rfl
    | _ => cases hh

theorem imprint_perform_of_not {i : Instruction} (h : i.isImprint = false) (index : Nat)
    (identifier : String) (s : BuilderState) :
    (s.perform index identifier i).imprint = s.imprint := by
  cases hd : i.isDeclaration with
  | false =>
    have hc := catalogue_perform hd h index identifier s
    exact congrArg (fun c : Catalogue => (c.title, c.metadata, c.pendingKey)) hc
  | true =>
    cases i with
    | declare _ _ | rejectDeclaration _ _ => rfl
    | _ => cases hd

variable {s s' : BuilderState}

theorem imprint_storeValue (a b : Nat) (value : Text) (h : s.imprint = s'.imprint) :
    (s.storeValue a value).imprint = (s'.storeValue b value).imprint := by
  obtain ⟨ht, hmk⟩ := Prod.mk.inj h
  obtain ⟨hm, hk⟩ := Prod.mk.inj hmk
  unfold storeValue
  cases hp : s.pendingKey with
  | none =>
    rw [← hk, hp]
    exact h
  | some key =>
    rw [← hk, hp]
    simp only [imprint, ht, hm]

end BuilderState

/-- **The table of the performers is a layer.** -/
theorem layer_performers :
    Layer (fun t => t.IsContainerOf .performerDeclaration) BuilderState.performers :=
  .of_perform Token.isContainerOf_of_isDeclaration (fun _ _ _ _ => rfl)
    (fun {i s s'} a b identifier hi h => by
      cases i with
      | declare performer instruments => exact congrArg (Table.put · performer instruments) h
      | rejectDeclaration performer typeName =>
        exact congrArg (Table.putIfAbsent · performer .empty) h
      | _ => cases hi)
    (fun s a identifier hi => performers_perform_of_not hi a identifier s)

/-- **The title and the metadata are a layer.** -/
theorem layer_imprint : Layer Token.IsImprint imprint :=
  .of_perform Token.isImprint_of_instruction? (fun _ _ _ _ => rfl)
    (fun {i s s'} a b identifier hi h => by
      cases i with
      | setTitle title => exact congrArg (fun x => (title, x.2)) h
      | setKey key => exact congrArg (fun x => (x.1, x.2.1, some key)) h
      | storeValue value => exact imprint_storeValue a b value h
      | _ => cases hi)
    (fun s a identifier hi => imprint_perform_of_not hi a identifier s)

/-! ### Scores -/

/-- What a report says about the structure, without the places: the codes and the messages. -/
def Report.structural (r : Report) : List (Text × Text) :=
  (r.issues.filter fun i => i.code ∈ structuralCodes.map Text.ofString).map fun i =>
    (i.code, i.message)

section

variable {ts us : List Token} {a b : Score}

theorem measures_build (ha : build false ts = .ok a) :
    a.measures = (reached ts).skeleton.closeMeasure.measures := by
  obtain ⟨-, rfl⟩ := build_lenient_eq_ok.mp ha
  rw [← skeleton_closeMeasure]
  rfl

theorem bare_forest_build (ha : build false ts = .ok a) :
    a.forest.bare = (reached ts).skeleton.forest.map Tree.normalize := by
  obtain ⟨-, rfl⟩ := build_lenient_eq_ok.mp ha
  show Forest.bare ((reached ts).closeMeasure.forest.map Tree.normalize) = _
  rw [forest_closeMeasure, Forest.bare_map_normalize]
  rfl

theorem indivisible_bare (f : Forest) : indivisible f.bare = indivisible f := by
  rw [indivisible, indivisible, Forest.bare, List.flatMap_map]
  exact List.flatMap_congr fun t _ => by rw [Tree.indivisible_bare]

theorem structural_build (ha : build false ts = .ok a) :
    a.report.structural = ((reached ts).skeleton.findings ++
      indivisible (reached ts).skeleton.forest).map fun f =>
        (Text.ofString f.code, Text.ofString f.message) := by
  have hc : ∀ f : Finding, decide (f.issue.code ∈ structuralCodes.map Text.ofString) =
      f.isStructural := by
    intro f
    refine decide_eq_decide.mpr ⟨fun h => ?_, fun h => List.mem_map_of_mem h⟩
    obtain ⟨code, hm, he⟩ := List.mem_map.mp h
    exact Text.ofString_injective he ▸ hm
  have hi : (indivisible (reached ts).forest).filter Finding.isStructural =
      indivisible (reached ts).forest := by
    refine List.filter_eq_self.mpr fun f hf => ?_
    rw [Finding.isStructural, code_of_mem_indivisible hf]
    rfl
  rw [Report.structural, issues_build ha, ← List.map_append, List.filter_map]
  simp only [Function.comp_def, hc, List.filter_append, hi, List.map_append, List.map_map,
    skeleton, indivisible_bare, Finding.code_unplaced, Finding.message_unplaced]
  rfl

/-- **Two streams that agree in the tokens of a layer agree in what the layer leaves in the
score.** The tokens that build measures and trees settle the measures, the trees up to their
components, and what the report says about the structure; the declarations settle the table of the
performers; and the title and the metadata depend on the tokens about them. -/
theorem layers_independent (ha : build false ts = .ok a) (hb : build false us = .ok b) :
    (ts.filter (fun t => t.IsStructural) = us.filter (fun t => t.IsStructural) →
      a.measures = b.measures ∧ a.forest.bare = b.forest.bare ∧
        a.report.structural = b.report.structural) ∧
      (ts.filter (fun t => t.IsContainerOf .performerDeclaration) =
        us.filter (fun t => t.IsContainerOf .performerDeclaration) →
          a.performers = b.performers) ∧
      (ts.filter (fun t => t.IsImprint) = us.filter (fun t => t.IsImprint) →
        a.title = b.title ∧ a.metadata = b.metadata) := by
  refine ⟨fun h => ?_, fun h => ?_, fun h => ?_⟩
  · have hs := layer_skeleton.view_reached_eq h
    refine ⟨?_, ?_, ?_⟩
    · rw [measures_build ha, measures_build hb, hs]
    · rw [bare_forest_build ha, bare_forest_build hb, hs]
    · rw [structural_build ha, structural_build hb, hs]
  · obtain ⟨-, rfl⟩ := build_lenient_eq_ok.mp ha
    obtain ⟨-, rfl⟩ := build_lenient_eq_ok.mp hb
    have hc := fun s => congrArg Catalogue.performers (catalogue_closeMeasure s)
    exact (hc _).trans ((layer_performers.view_reached_eq h).trans (hc _).symm)
  · obtain ⟨-, rfl⟩ := build_lenient_eq_ok.mp ha
    obtain ⟨-, rfl⟩ := build_lenient_eq_ok.mp hb
    have ht := fun s => congrArg Catalogue.title (catalogue_closeMeasure s)
    have hm := fun s => congrArg Catalogue.metadata (catalogue_closeMeasure s)
    obtain ⟨e, e'⟩ := Prod.mk.inj (layer_imprint.view_reached_eq h)
    exact ⟨(ht _).trans (e.trans (ht _).symm),
      (hm _).trans ((Prod.mk.inj e').1.trans (hm _).symm)⟩

end

open Token in
/-- A measure with a tree, with a title before it and a declaration behind it. -/
def titleFirst : List Token :=
  [.text Keyword.title.spelling "Air", bar, root (.ofNat 4), leaf 0 (.below 0), leaf 1 (.below 1),
    leaf 1 (.below 0), .container Keyword.performerDeclaration.spelling (some "flute") []]

open Token in
/-- The same measure, title and declaration in another order, with an event between them. -/
def titleLast : List Token :=
  [.container Keyword.performerDeclaration.spelling (some "flute") [], bar, root (.ofNat 4),
    leaf 0 (.below 0), .container Keyword.pitch.spelling none [], leaf 1 (.below 1),
    leaf 1 (.below 0), .text Keyword.title.spelling "Air"]

theorem layers_independent_titleFirst :
    ∃ a b, build false titleFirst = .ok a ∧ build false titleLast = .ok b ∧
      (a.measures = b.measures ∧ a.forest.bare = b.forest.bare ∧
        a.report.structural = b.report.structural) ∧
      a.performers = b.performers ∧ a.title = b.title ∧ a.metadata = b.metadata := by
  have ha : build false titleFirst = .ok (reached titleFirst).toScore :=
    build_lenient_eq_ok.mpr ⟨by decide +kernel, rfl⟩
  have hb : build false titleLast = .ok (reached titleLast).toScore :=
    build_lenient_eq_ok.mpr ⟨by decide +kernel, rfl⟩
  obtain ⟨hs, hd, hh⟩ := layers_independent ha hb
  exact ⟨_, _, ha, hb, hs rfl, hd rfl, hh rfl⟩

end RhythmTree
