import RhythmTree.Proofs.Lenient
import RhythmTree.Proofs.Shape
import RhythmTree.Proofs.Tiling

/-!
# The times of a run

Only three kinds of tokens touch the times of a builder: those that open a measure, those that
switch the mode and those that add a tree. `Times` collects these times, and `timedStep_after` says
what a token does to them.

* `times_perform`: no other instruction changes a time.
* `addRoot_of_measure`, `addRoot_of_increment`, `addRoot_of_decrement_none`,
  `addRoot_of_decrement_some`: where each mode puts a tree.
* `times_addRoot`: in every mode the new tree comes behind the others, and the time elapsed in the
  measure and the position move on by its duration.
-/

namespace RhythmTree

/-! ### Tokens that touch the times -/

namespace Token

/-- A token that opens a measure. -/
def opensMeasure (t : Token) : Bool :=
  match t.instruction? with
  | some .openMeasure => true
  | _ => false

/-- The mode that a token switches to. -/
def mode? (t : Token) : Option StackMode :=
  match t.instruction? with
  | some (.setMode mode) => some mode
  | _ => none

/-- How long the tree lasts that a token adds. -/
def duration? (t : Token) : Option Duration :=
  match t.instruction? with
  | some (.addRoot d) => some d
  | _ => none

/-- A token that adds a tree. -/
def startsTree (t : Token) : Bool := t.duration?.isSome

theorem instruction?_of_opensMeasure {t : Token} (h : t.opensMeasure = true) :
    t.instruction? = some .openMeasure := by
  unfold opensMeasure at h
  split at h
  · assumption
  · cases h

theorem exists_instruction?_of_startsTree {t : Token} (h : t.startsTree = true) :
    ∃ d, t.instruction? = some (.addRoot d) := by
  unfold startsTree duration? at h
  split at h
  · next d hd => exact ⟨d, hd⟩
  · cases h

end Token

/-- How many measures some tokens open. -/
def measureCount (ts : List Token) : Nat := ts.countP Token.opensMeasure

/-- How many trees some tokens add. -/
def treeCount (ts : List Token) : Nat := ts.countP Token.startsTree

/-- The trees of a forest that some tokens have added behind the tokens before them. -/
def Forest.added (f : Forest) (before ts : List Token) : Forest :=
  (f.drop (treeCount before)).take (treeCount ts)

theorem measureCount_append (ts us : List Token) :
    measureCount (ts ++ us) = measureCount ts + measureCount us := List.countP_append

theorem measureCount_eq_zero {ts : List Token} :
    measureCount ts = 0 ↔ ∀ t ∈ ts, t.opensMeasure = false := by
  simp [measureCount]

theorem treeCount_append (ts us : List Token) :
    treeCount (ts ++ us) = treeCount ts + treeCount us := List.countP_append

theorem measureCount_concat (ts : List Token) (t : Token) :
    measureCount (ts ++ [t]) = measureCount ts + if t.opensMeasure then 1 else 0 := by
  rw [measureCount_append]
  exact congrArg _ List.countP_singleton

theorem treeCount_concat (ts : List Token) (t : Token) :
    treeCount (ts ++ [t]) = treeCount ts + if t.startsTree then 1 else 0 := by
  rw [treeCount_append]
  exact congrArg _ List.countP_singleton

/-! ### The times in a state -/

/-- The times in a builder state. -/
structure Times where
  mode : StackMode
  measureStart : Duration
  elapsed : Duration
  position : Duration
  measures : List Measure
  /-- The spans of the trees. -/
  spans : List Span

/-- The times in a state. -/
def BuilderState.times (s : BuilderState) : Times :=
  ⟨s.mode, s.measureStart, s.elapsed, s.position, s.measures, s.forest.map Tree.span⟩

/-- A change that keeps a property of the label of every node keeps it at the roots of all trees. -/
theorem Forest.map_label_modifyAt {α : Type} {g : Node → α} {change : Tree → Tree}
    (h : ∀ t, g (change t).label = g t.label) (f : Forest) (p : Place) :
    (f.modifyAt change p).map (fun t => g t.label) = f.map fun t => g t.label := by
  apply List.ext_getElem?
  intro i
  rw [modifyAt, List.getElem?_map, List.getElem?_map, List.getElem?_modify]
  split
  · cases f[i]? with
    | none => rfl
    | some t => exact congrArg some (Rose.label_modifyAt h p.path t)
  · rw [Option.map_eq_map, Option.map_id']

theorem Forest.map_span_addChild (f : Forest) (beats : Int) (p : Place) :
    (f.addChild beats p).map Tree.span = f.map Tree.span :=
  map_label_modifyAt (g := Node.span) (fun t => by cases t; rfl) f p

theorem Forest.map_span_addComponent (f : Forest) (c : Component) (p : Place) :
    (f.addComponent c p).map Tree.span = f.map Tree.span :=
  map_label_modifyAt (g := Node.span) (fun t => by cases t; rfl) f p

namespace BuilderState

theorem times_closeLevels (index depth : Nat) (s : BuilderState) :
    (s.closeLevels index depth).times = s.times := by
  unfold closeLevels
  split
  · dsimp only
    split <;> rfl
  · rfl

theorem times_attachChild (index : Nat) (identifier : String) (beats : Int) (depth : Nat)
    (s : BuilderState) : (s.attachChild index identifier beats depth).2.times = s.times := by
  unfold attachChild
  split
  · rfl
  · simp only [times, Forest.map_span_addChild]

theorem times_attachNode (index : Nat) (identifier : String) (beats : Int) (level : Level)
    (s : BuilderState) : (s.attachNode index identifier beats level).2.times = s.times := by
  rw [attachNode, times_attachChild, times_closeLevels]

theorem times_addInner (index : Nat) (identifier : String) (beats : Int) (level : Level)
    (s : BuilderState) : (s.addInner index identifier beats level).times = s.times := by
  have h := times_attachNode index identifier beats level s
  unfold addInner
  split <;> next hs => rw [hs] at h; exact h

theorem times_addLeaf (index : Nat) (identifier : String) (beats : Int) (level : Level)
    (s : BuilderState) : (s.addLeaf index identifier beats level).times = s.times := by
  have h := times_attachNode index identifier beats level s
  unfold addLeaf
  split <;> next hs => rw [hs] at h; exact h

theorem times_attachEvent (index : Nat) (identifier : String) (s : BuilderState) (event : Event) :
    (s.attachEvent index identifier event).times = s.times := by
  unfold attachEvent
  split
  · simp only [times, Forest.map_span_addComponent]
  · rfl

theorem times_attach (index : Nat) (identifier : String) (events : List Event)
    (s : BuilderState) : (s.attach index identifier events).times = s.times := by
  unfold attach
  induction events generalizing s with
  | nil => rfl
  | cons event rest ih => rw [List.foldl_cons, ih, times_attachEvent]

theorem times_storeValue (index : Nat) (value : Text) (s : BuilderState) :
    (s.storeValue index value).times = s.times := by
  unfold storeValue
  split <;> rfl

end BuilderState

/-- An instruction that changes the times of a builder. -/
def Instruction.isTimed : Instruction → Bool
  | .openMeasure | .setMode _ | .addRoot _ => true
  | _ => false

namespace BuilderState

/-- Every other instruction leaves the times as they are. -/
theorem times_perform {i : Instruction} (h : i.isTimed = false) (index : Nat) (identifier : String)
    (s : BuilderState) : (s.perform index identifier i).times = s.times := by
  cases i with
  | openMeasure => cases h
  | setMode mode => cases h
  | addRoot d => cases h
  | addInner beats level => exact times_addInner index identifier beats level s
  | addLeaf beats level => exact times_addLeaf index identifier beats level s
  | storeValue value => exact times_storeValue index value s
  | attach events => exact times_attach index identifier events s
  | _ => rfl

/-- What a token does to the times. -/
inductive TimedStep (s : BuilderState) (index : Nat) (t : Token) : Prop
  /-- It opens a measure. -/
  | bar (opens : t.opensMeasure = true) (starts : t.startsTree = false) (mode : t.mode? = none)
      (eq : s.after index t = s.openMeasure)
  /-- It switches the mode. -/
  | switch (m : StackMode) (opens : t.opensMeasure = false) (starts : t.startsTree = false)
      (mode : t.mode? = some m) (eq : s.after index t = s.setMode m)
  /-- It adds a tree. -/
  | root (d : Duration) (opens : t.opensMeasure = false) (starts : t.startsTree = true)
      (mode : t.mode? = none) (eq : s.after index t = s.addRoot index d)
  /-- It leaves the times as they are. -/
  | idle (opens : t.opensMeasure = false) (starts : t.startsTree = false) (mode : t.mode? = none)
      (eq : (s.after index t).times = s.times)

/-- Every token takes one of these steps. -/
theorem timedStep_after (s : BuilderState) (index : Nat) (t : Token) : TimedStep s index t := by
  cases hi : t.instruction? with
  | none =>
    refine .idle ?_ ?_ ?_ ?_
    · rw [Token.opensMeasure, hi]
    · rw [Token.startsTree, Token.duration?, hi]
      rfl
    · rw [Token.mode?, hi]
    · rcases after_of_instruction?_eq_none hi s index with h | h
      · rw [h]
      · rw [h]
        rfl
  | some i =>
    have ha := after_of_instruction? hi s index
    -- the three readings of the token are those of its instruction
    have ho : t.opensMeasure = match some i with | some .openMeasure => true | _ => false := by
      rw [Token.opensMeasure, hi]
    have hs : t.startsTree =
        (match some i with | some (.addRoot d) => some d | _ => none).isSome := by
      rw [Token.startsTree, Token.duration?, hi]
    have hm : t.mode? = match some i with | some (.setMode m) => some m | _ => none := by
      rw [Token.mode?, hi]
    cases hti : i.isTimed with
    | true =>
      cases i with
      | openMeasure => exact .bar ho hs hm ha
      | setMode m => exact .switch m ho hs hm ha
      | addRoot d => exact .root d ho hs hm ha
      | _ => cases hti
    | false =>
      have ht : (s.after index t).times = s.times := by
        rw [ha]
        exact times_perform hti index t.name s
      cases i with
      | openMeasure => cases hti
      | setMode m => cases hti
      | addRoot d => cases hti
      | _ => exact .idle ho hs hm ht

/-! ### Adding a tree -/

theorem times_addRootAt (d offset : Duration) (s : BuilderState) :
    (s.addRootAt d offset).times = { s.times with
      elapsed := s.elapsed + d
      position := s.position + d
      spans := s.times.spans ++ [.ofLength d offset] } := by
  simp only [times, addRootAt, List.map_append]
  rfl

theorem addRoot_of_measure {s : BuilderState} (h : s.mode = .measure) (index : Nat)
    (d : Duration) :
    s.addRoot index d = addRootAt d s.measureStart { s with position := s.measureStart } := by
  simp only [addRoot, placeRoot, h]

theorem addRoot_of_increment {s : BuilderState} (h : s.mode = .increment) (index : Nat)
    (d : Duration) : s.addRoot index d = s.addRootAt d s.position := by
  simp only [addRoot, placeRoot, h]

/-- With no open node a tree goes to the start of the piece, and the position stays. -/
theorem addRoot_of_decrement_none {s : BuilderState} (h : s.mode = .decrement)
    (ho : s.openNode? = none) (index : Nat) (d : Duration) :
    s.addRoot index d = s.addRootAt d .zero := by
  simp only [addRoot, placeRoot, h, ho]

theorem addRoot_of_decrement_some {s : BuilderState} (h : s.mode = .decrement) {t : Tree}
    (ho : s.openNode? = some t) (index : Nat) (d : Duration) :
    s.addRoot index d = addRootAt d t.label.offset
      (stepBack index t.label.duration { s with position := t.label.offset }) := by
  simp only [addRoot, placeRoot, h, ho]

theorem times_stepBack (index : Nat) (back : Duration) (s : BuilderState) :
    ∃ rest, (s.stepBack index back).times = { s.times with elapsed := rest } := by
  unfold stepBack
  split
  · next rest _ => exact ⟨rest, rfl⟩
  · exact ⟨.zero, rfl⟩

/-- In every mode the new tree comes behind the others, and the time elapsed in the measure and the
position move on by its duration from wherever the mode has set them to. -/
theorem times_addRoot (index : Nat) (d : Duration) (s : BuilderState) :
    ∃ offset elapsed position, (s.addRoot index d).times = { s.times with
      elapsed := elapsed + d
      position := position + d
      spans := s.times.spans ++ [.ofLength d offset] } := by
  cases h : s.mode with
  | measure =>
    exact ⟨s.measureStart, s.elapsed, s.measureStart, by
      rw [addRoot_of_measure h, times_addRootAt]; rfl⟩
  | increment =>
    exact ⟨s.position, s.elapsed, s.position, by rw [addRoot_of_increment h, times_addRootAt]⟩
  | decrement =>
    cases ho : s.openNode? with
    | none =>
      exact ⟨.zero, s.elapsed, s.position, by
        rw [addRoot_of_decrement_none h ho, times_addRootAt]⟩
    | some t =>
      obtain ⟨rest, hr⟩ :=
        times_stepBack index t.label.duration { s with position := t.label.offset }
      refine ⟨t.label.offset, rest, t.label.offset, ?_⟩
      have hp := congrArg Times.position hr
      have he := congrArg Times.elapsed hr
      rw [addRoot_of_decrement_some h ho, times_addRootAt, hr]
      simp only [times] at hp he ⊢
      rw [hp, he]

end BuilderState

end RhythmTree
