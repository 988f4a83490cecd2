import RhythmTree.Proofs.Timeline

/-!
# Outlines

The shape of the trees depends on three kinds of tokens only: those that add a tree, an inner node
or a leaf. An outline is what matters to them in a builder state: the open nodes and the depth, the
durations of the roots, the weights of the trees, and what got lost.

* `outline_perform`: **an instruction does to the outline of a state what it does to the state.**
* `outline_reached`: the outline behind a stream is a fold over its node tokens.
* `map_beats_build`, `map_duration_build`, `losses_eq_nil_iff`: what a score shows of the outline.
-/

namespace RhythmTree

open BuilderState

/-- How the indentation of a node goes wrong. -/
inductive Loss
  /-- More nodes should be closed than are open. -/
  | underflow
  /-- There is no open node to attach the node to. -/
  | dropped
  deriving DecidableEq, Repr

/-- The loss that a finding is about. -/
def Finding.loss? : Finding → Option Loss
  | .underflow _ _ _ => some .underflow
  | .noContainer _ _ _ => some .dropped
  | _ => none

/-- What matters to the shape of the trees in a builder state. -/
structure Outline where
  /-- The open nodes of the latest tree. -/
  stack : Stack Address := .empty
  /-- How many levels were around the latest node. -/
  depth : Nat := 0
  /-- How long the trees last. -/
  durations : List Duration := []
  /-- The weights of the nodes. -/
  trees : List (Rose Int) := []
  losses : List Loss := []

namespace Outline

/-- Adds a tree that is a single node, which becomes the only open one. -/
def addTree (duration : Duration) (o : Outline) : Outline :=
  { o with
    stack := .reseed []
    depth := 0
    durations := o.durations ++ [duration]
    trees := o.trees ++ [.node 1 []] }

/-- Closes the open nodes that a node inside fewer levels has left. -/
def closeLevels (depth : Nat) (o : Outline) : Outline :=
  if depth < o.depth then
    { o with
      stack := o.stack.pop (o.depth - depth : Nat)
      losses := o.losses ++
        if o.stack.closable (o.depth - depth : Nat) < o.depth - depth then [.underflow] else [] }
  else o

/-- The address of the next child of a node of the latest tree. -/
def nextChild (path : Address) (o : Outline) : Address :=
  path ++ [(o.trees[o.trees.length - 1]?.bind fun t => t.subtreeAt path).elim 0 fun t =>
    t.children.length]

/-- Adds a child to the innermost open node and opens it if it should be open. -/
def attachChild (opens : Bool) (beats : Int) (depth : Nat) (o : Outline) : Outline :=
  match o.stack.top? with
  | none => { o with losses := o.losses ++ [.dropped] }
  | some path =>
    { o with
      stack := if opens then o.stack.push (o.nextChild path) else o.stack
      depth := depth
      trees := o.trees.modify (o.trees.length - 1) (Rose.modifyAt (Rose.addLeaf beats) path) }

/-- Closes what the level of a node has left and adds the node to the innermost open one. -/
def addNode (opens : Bool) (beats : Int) (depth : Nat) (o : Outline) : Outline :=
  (o.closeLevels depth).attachChild opens beats depth

theorem attachChild_of_none {o : Outline} (h : o.stack.top? = none) (opens : Bool) (beats : Int)
    (depth : Nat) :
    o.attachChild opens beats depth = { o with losses := o.losses ++ [.dropped] } := by
  rw [attachChild, h]

theorem attachChild_of_some {o : Outline} {path : Address} (h : o.stack.top? = some path)
    (opens : Bool) (beats : Int) (depth : Nat) :
    o.attachChild opens beats depth = { o with
      stack := if opens then o.stack.push (o.nextChild path) else o.stack
      depth := depth
      trees := o.trees.modify (o.trees.length - 1) (Rose.modifyAt (Rose.addLeaf beats) path) } := by
  rw [attachChild, h]

/-- Carries out an instruction. -/
def perform (i : Instruction) (o : Outline) : Outline :=
  match i with
  | .addRoot d => o.addTree d
  | .addInner beats level => o.addNode true beats level.outer
  | .addLeaf beats level => o.addNode false beats level.outer
  | _ => o

/-- The outline after one more token. -/
def after (o : Outline) (t : Token) : Outline :=
  match t.instruction? with
  | some i => o.perform i
  | none => o

end Outline

/-! ### Outlines of states -/

namespace BuilderState

/-- The outline of a state. -/
def outline (s : BuilderState) : Outline :=
  { stack := s.stack
    depth := s.depth
    durations := s.forest.map fun t => t.label.duration
    trees := s.forest.map (Rose.map Node.beats)
    losses := s.findings.filterMap Finding.loss? }

theorem outline_record {f : Finding} (h : f.loss? = none) (s : BuilderState) :
    (s.record f).outline = s.outline := by
  simp only [outline, record, List.filterMap_append, List.filterMap_cons, h, List.filterMap_nil,
    List.append_nil]

theorem outline_addRootAt (d offset : Duration) (s : BuilderState) :
    (s.addRootAt d offset).outline = s.outline.addTree d := by
  simp only [outline, addRootAt, Outline.addTree, List.map_append, List.map_singleton]
  rfl

theorem outline_stepBack (index : Nat) (back : Duration) (s : BuilderState) :
    (s.stepBack index back).outline = s.outline := by
  unfold stepBack
  split
  · rfl
  · exact outline_record rfl s

theorem outline_addRoot (index : Nat) (d : Duration) (s : BuilderState) :
    (s.addRoot index d).outline = s.outline.addTree d := by
  cases h : s.mode with
  | measure =>
    rw [addRoot_of_measure h, outline_addRootAt]
    rfl
  | increment => rw [addRoot_of_increment h, outline_addRootAt]
  | decrement =>
    cases ho : s.openNode? with
    | none => rw [addRoot_of_decrement_none h ho, outline_addRootAt]
    | some t =>
      rw [addRoot_of_decrement_some h ho, outline_addRootAt, outline_stepBack]
      rfl

theorem outline_closeLevels (index depth : Nat) (s : BuilderState) :
    (s.closeLevels index depth).outline = s.outline.closeLevels depth := by
  unfold closeLevels Outline.closeLevels
  by_cases h : depth < s.depth
  · by_cases hc : s.stack.closable (s.depth - depth : Nat) < s.depth - depth
    · rw [if_pos h, if_pos (show depth < s.outline.depth from h)]
      simp only [outline, hc, if_true, record, List.filterMap_append]
      rfl
    · rw [if_pos h, if_pos (show depth < s.outline.depth from h)]
      simp only [outline, hc, if_false, List.append_nil]
  · rw [if_neg h, if_neg (show ¬ depth < s.outline.depth from h)]

theorem trees_addChild (f : Forest) (beats : Int) (p : Place) :
    (f.addChild beats p).map (Rose.map Node.beats) =
      (f.map (Rose.map Node.beats)).modify p.tree (Rose.modifyAt (Rose.addLeaf beats) p.path) := by
  refine Rose.map_modify _ (Rose.map_modifyAt Node.beats (fun t => ?_) p.path) p.tree f
  rw [Rose.addLeaf_eq_graft, Rose.addLeaf_eq_graft, Rose.map_graft, List.map_singleton,
    Rose.map_node, List.map_nil]

theorem trees_addComponent (f : Forest) (c : Component) (p : Place) :
    (f.addComponent c p).map (Rose.map Node.beats) = f.map (Rose.map Node.beats) := by
  have hc : ∀ t, (Tree.addComponent c t).map Node.beats = t.map Node.beats := by
    intro t
    cases t
    rw [Tree.addComponent, Rose.modifyLabel, Rose.map_node, Rose.map_node]
  have hm := @Rose.map_modify _ _ (Rose.map Node.beats) _ id
    (Rose.map_modifyAt_of_map_eq hc p.path) p.tree f
  rwa [List.modify_id] at hm

/-- The address of the next child of an open node can be read off the outline. -/
theorem path_nextChild (path : Address) (s : BuilderState) :
    (s.forest.nextChild ⟨s.forest.length - 1, path⟩).path = s.outline.nextChild path := by
  show path ++ [_] = path ++ [_]
  simp only [outline, Forest.subtreeAt, List.length_map, List.getElem?_map, Option.bind_map,
    Function.comp_def, Rose.subtreeAt_map]
  cases s.forest[s.forest.length - 1]? with
  | none => rfl
  | some t =>
    simp only [Option.bind_some]
    cases t.subtreeAt path with
    | none => rfl
    | some u => simp only [Option.map_some, Option.elim_some, Rose.children_map, List.length_map]

theorem outline_drop (index : Nat) (identifier : String) (beats : Int) (s : BuilderState) :
    (s.record (.noContainer index identifier beats)).outline =
      { s.outline with losses := s.outline.losses ++ [.dropped] } := by
  simp only [outline, record, List.filterMap_append]
  rfl

/-- The outline of a state whose latest tree gets a child. -/
theorem outline_addChild (beats : Int) (path : Address) (depth : Nat) (s : BuilderState) :
    BuilderState.outline { s with
      forest := s.forest.addChild beats ⟨s.forest.length - 1, path⟩, depth := depth } =
      { s.outline with
        depth := depth
        trees := s.outline.trees.modify (s.outline.trees.length - 1)
          (Rose.modifyAt (Rose.addLeaf beats) path) } := by
  have hd := @Forest.map_label_modifyAt _ Node.duration (Rose.addLeaf { beats := beats })
    (fun t => by cases t; rfl) s.forest ⟨s.forest.length - 1, path⟩
  simp only [outline, trees_addChild, List.length_map]
  rw [Forest.addChild, hd]

theorem outline_addInner (index : Nat) (identifier : String) (beats : Int) (level : Level)
    (s : BuilderState) : (s.addInner index identifier beats level).outline =
      s.outline.addNode true beats level.outer := by
  rw [Outline.addNode, ← outline_closeLevels index, addInner, attachNode, attachChild]
  generalize s.closeLevels index level.outer = s'
  cases h : s'.stack.top? with
  | none =>
    rw [Outline.attachChild_of_none h]
    exact outline_drop index identifier beats s'
  | some path =>
    rw [Outline.attachChild_of_some h, ← path_nextChild]
    have ho := outline_addChild beats path level.outer s'
    exact congrArg (fun o : Outline =>
      { o with stack := s'.stack.push (s'.forest.nextChild ⟨s'.forest.length - 1, path⟩).path }) ho

theorem outline_addLeaf (index : Nat) (identifier : String) (beats : Int) (level : Level)
    (s : BuilderState) : (s.addLeaf index identifier beats level).outline =
      s.outline.addNode false beats level.outer := by
  rw [Outline.addNode, ← outline_closeLevels index, addLeaf, attachNode, attachChild]
  generalize s.closeLevels index level.outer = s'
  cases h : s'.stack.top? with
  | none =>
    rw [Outline.attachChild_of_none h]
    exact outline_drop index identifier beats s'
  | some path =>
    rw [Outline.attachChild_of_some h]
    exact outline_addChild beats path level.outer s'

theorem outline_openMeasure (s : BuilderState) : s.openMeasure.outline = s.outline := by
  unfold openMeasure closeMeasure
  split <;> rfl

theorem outline_setMode (mode : StackMode) (s : BuilderState) :
    (s.setMode mode).outline = s.outline := by
  cases mode <;> rfl

theorem outline_storeValue (index : Nat) (value : Text) (s : BuilderState) :
    (s.storeValue index value).outline = s.outline := by
  unfold storeValue
  split
  · exact outline_record rfl s
  · rfl

theorem outline_attachEvent (index : Nat) (identifier : String) (s : BuilderState)
    (event : Event) : (s.attachEvent index identifier event).outline = s.outline := by
  unfold attachEvent
  split
  · next place performer instrument _ _ _ =>
    have hd := @Forest.map_label_modifyAt _ Node.duration
      (Tree.addComponent ⟨performer, instrument, event⟩) (fun t => by cases t; rfl) s.forest place
    simp only [outline, trees_addComponent]
    rw [Forest.addComponent, hd]
  · exact outline_record rfl s

theorem outline_attach (index : Nat) (identifier : String) (events : List Event)
    (s : BuilderState) : (s.attach index identifier events).outline = s.outline := by
  unfold attach
  induction events generalizing s with
  | nil => rfl
  | cons event rest ih => rw [List.foldl_cons, ih, outline_attachEvent]

/-- **An instruction does to the outline of a state what it does to the state.** -/
theorem outline_perform (index : Nat) (identifier : String) (i : Instruction) (s : BuilderState) :
    (s.perform index identifier i).outline = s.outline.perform i := by
  cases i with
  | openMeasure => exact outline_openMeasure s
  | setMode mode => exact outline_setMode mode s
  | addRoot d => exact outline_addRoot index d s
  | addInner beats level => exact outline_addInner index identifier beats level s
  | addLeaf beats level => exact outline_addLeaf index identifier beats level s
  | storeValue value => exact outline_storeValue index value s
  | rejectDeclaration performer typeName => exact outline_record rfl s
  | attach events => exact outline_attach index identifier events s
  | _ => rfl

theorem outline_after (s : BuilderState) (index : Nat) (t : Token) :
    (s.after index t).outline = s.outline.after t := by
  unfold Outline.after
  cases hi : t.instruction? with
  | none =>
    rcases after_of_instruction?_eq_none hi s index with h | h
    · rw [h]
    · rw [h]
      exact outline_record rfl s
  | some i =>
    rw [after_of_instruction? hi]
    exact outline_perform index t.name i s

theorem outline_afterAll (s : BuilderState) (index : Nat) (ts : List Token) :
    (s.afterAll index ts).outline = ts.foldl Outline.after s.outline := by
  induction ts generalizing s index with
  | nil => rfl
  | cons t rest ih => rw [afterAll, ih, outline_after, List.foldl_cons]

end BuilderState

/-! ### Node tokens -/

/-- A token that adds a tree or a node. -/
def Token.isNode (t : Token) : Bool :=
  match t.instruction? with
  | some (.addRoot _) | some (.addInner _ _) | some (.addLeaf _ _) => true
  | _ => false

theorem Outline.after_of_not_isNode {t : Token} (h : t.isNode = false) (o : Outline) :
    o.after t = o := by
  unfold Token.isNode at h
  unfold after
  cases hi : t.instruction? with
  | none => rfl
  | some i =>
    rw [hi] at h
    cases i with
    | addRoot d => cases h
    | addInner beats level => cases h
    | addLeaf beats level => cases h
    | _ => rfl

/-- **The outline behind a stream is a fold over its node tokens.** -/
theorem outline_reached (ts : List Token) :
    (reached ts).outline = (ts.filter Token.isNode).foldl Outline.after {} := by
  have h : ∀ (o : Outline) (t : Token), (if t.isNode then o.after t else o) = o.after t := by
    intro o t
    cases ht : t.isNode with
    | true => rw [if_pos rfl]
    | false => rw [if_neg Bool.false_ne_true, Outline.after_of_not_isNode ht]
  rw [List.foldl_filter]
  simp only [h]
  exact outline_afterAll {} 0 ts

/-! ### Outlines and scores -/

section

variable {ts : List Token} {score : Score}

/-- The weights of the trees of a score. -/
theorem map_beats_build (hb : build false ts = .ok score) :
    score.forest.map (Rose.map Node.beats) = (reached ts).outline.trees := by
  obtain ⟨-, rfl⟩ := build_lenient_eq_ok.mp hb
  simp only [toScore, List.map_map]
  rw [forest_closeMeasure]
  exact List.map_congr_left fun t _ => Tree.map_beats_normalize t

/-- The durations of the trees of a score. -/
theorem map_duration_build (hb : build false ts = .ok score) :
    score.forest.map (fun t => t.label.duration) = (reached ts).outline.durations := by
  obtain ⟨-, rfl⟩ := build_lenient_eq_ok.mp hb
  simp only [toScore, List.map_map]
  rw [forest_closeMeasure]
  exact List.map_congr_left fun t _ => congrArg Node.duration (Tree.label_normalize t)

/-- The codes in the report of a score are those of the findings. -/
theorem mem_codes_build (hb : build false ts = .ok score) (code : String) :
    Text.ofString code ∈ score.report.codes ↔
      ∃ f ∈ (reached ts).findings ++ indivisible (reached ts).forest, f.code = code := by
  have hf : (reached ts).closeMeasure.findings = (reached ts).findings := by
    unfold closeMeasure
    split <;> rfl
  obtain ⟨-, rfl⟩ := build_lenient_eq_ok.mp hb
  simp only [toScore, Report.codes, Report.ofFindings, List.map_map, hf, forest_closeMeasure]
  rw [List.mem_map]
  constructor
  · rintro ⟨f, hmem, he⟩
    exact ⟨f, hmem, Text.ofString_injective he⟩
  · rintro ⟨f, hmem, rfl⟩
    exact ⟨f, hmem, rfl⟩

theorem Finding.loss?_eq_none_iff (f : Finding) :
    f.loss? = none ↔ f.code ≠ "STACK_UNDERFLOW" ∧ f.code ≠ "NO_OPEN_CONTAINER" := by
  cases f <;> simp [loss?, code]

/-- **Nothing is lost exactly if the report says so.** -/
theorem losses_eq_nil_iff (hb : build false ts = .ok score) :
    (reached ts).outline.losses = [] ↔
      Text.ofString "STACK_UNDERFLOW" ∉ score.report.codes ∧
        Text.ofString "NO_OPEN_CONTAINER" ∉ score.report.codes := by
  rw [mem_codes_build hb, mem_codes_build hb]
  constructor
  · intro h
    have hloss : ∀ f ∈ (reached ts).findings ++ indivisible (reached ts).forest,
        f.loss? = none := by
      intro f hf
      rcases List.mem_append.mp hf with hf | hf
      · exact List.filterMap_eq_nil_iff.mp h f hf
      · obtain ⟨t, -, ht⟩ := List.mem_flatMap.mp hf
        obtain ⟨problem, -, rfl⟩ := List.mem_map.mp ht
        rfl
    refine ⟨?_, ?_⟩
    · rintro ⟨f, hf, hc⟩
      exact ((f.loss?_eq_none_iff).mp (hloss f hf)).1 hc
    · rintro ⟨f, hf, hc⟩
      exact ((f.loss?_eq_none_iff).mp (hloss f hf)).2 hc
  · rintro ⟨hu, hd⟩
    refine List.filterMap_eq_nil_iff.mpr fun f hf => (f.loss?_eq_none_iff).mpr ⟨?_, ?_⟩
    · intro hc
      exact hu ⟨f, List.mem_append_left _ hf, hc⟩
    · intro hc
      exact hd ⟨f, List.mem_append_left _ hf, hc⟩

end

end RhythmTree
