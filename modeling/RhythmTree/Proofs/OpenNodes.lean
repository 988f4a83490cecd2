import RhythmTree.Proofs.Depth
import RhythmTree.Proofs.Findings
import RhythmTree.Proofs.Forms
import RhythmTree.Proofs.Growth
import RhythmTree.Proofs.Parts

/-!
# Open nodes

A builder adds nodes below open nodes only, and opens a node only when it adds it. So every open
node stands in the latest tree, whatever the stream loses on the way.

* `nodeAt?_addChild`, `nodeAt?_addComponent`: what stands in a forest after a change.
* `NodeStep`, `nodeStep_after`: what a token does to the trees, the open nodes and the current leaf.
* `open_stands`: **every open node stands in the latest tree.**
-/

namespace RhythmTree

open BuilderState

/-! ### Changes of the labels -/

/-- A change of one label changes no other. -/
theorem Rose.labelAt_modifyAt_modifyLabel {α : Type} (g : α → α) (p q : Address) (t : Rose α) :
    (Rose.modifyAt (Rose.modifyLabel g) p t).labelAt q =
      (t.labelAt q).map fun a => if q = p then g a else a := by
  induction p generalizing q t with
  | nil =>
    cases t with
    | node a ts =>
      cases q with
      | nil => rfl
      | cons j q =>
        simp only [reduceCtorEq, if_false, Option.map_id']
        rfl
  | cons i rest ih =>
    cases t with
    | node a ts =>
      cases q with
      | nil => rfl
      | cons j q =>
        rw [modifyAt, labelAt_cons, labelAt_cons, children_node, children_node]
        by_cases hij : i = j
        · subst hij
          rw [List.getElem?_modify_eq]
          simp only [List.cons.injEq, true_and]
          cases ts[i]? with
          | none => rfl
          | some c => exact ih q c
        · rw [List.getElem?_modify_ne _ _ hij]
          have hne : ∀ a, (if j :: q = i :: rest then g a else a) = a := by
            intro a
            exact if_neg fun he => hij (List.cons.inj he).1.symm
          simp only [hne, Option.map_id']

namespace Forest

variable {f : Forest} {p : Place} {u : Tree}

@[simp] theorem length_addChild (f : Forest) (beats : Int) (p : Place) :
    (f.addChild beats p).length = f.length := List.length_modify _ _ _

@[simp] theorem length_addComponent (f : Forest) (c : Component) (p : Place) :
    (f.addComponent c p).length = f.length := List.length_modify _ _ _

theorem nodeAt?_eq_bind (f : Forest) (p : Place) :
    f.nodeAt? p = f[p.tree]?.bind fun t => t.labelAt p.path := by
  rw [nodeAt?, subtreeAt, Option.map_bind]
  rfl

theorem nodeAt?_ne_none_iff : f.nodeAt? p ≠ none ↔ ∃ u, f.subtreeAt p = some u := by
  rw [nodeAt?, ne_eq, Option.map_eq_none_iff, ← ne_eq, Option.ne_none_iff_exists']

/-- **A new child takes one place, and no other node changes.** -/
theorem nodeAt?_addChild (h : f.subtreeAt p = some u) (beats : Int) (q : Place) :
    (f.addChild beats p).nodeAt? q =
      if q = p.child u.children.length then some { beats := beats } else f.nodeAt? q := by
  obtain ⟨t, ht, hu⟩ := Option.bind_eq_some_iff.mp h
  obtain ⟨i, p⟩ := p
  obtain ⟨j, q⟩ := q
  rw [nodeAt?_eq_bind, nodeAt?_eq_bind, addChild, modifyAt]
  by_cases hij : i = j
  · subst hij
    rw [List.getElem?_modify_eq, ht]
    simp only [Place.child, Place.mk.injEq, true_and]
    exact Rose.labelAt_modifyAt_addLeaf hu _ q
  · rw [List.getElem?_modify_ne _ _ hij, if_neg fun he => hij (congrArg Place.tree he).symm]

theorem nodeAt?_child (f : Forest) (p : Place) (i : Nat) :
    f.nodeAt? (p.child i) = (f.subtreeAt p).bind fun u => u.labelAt [i] := by
  rw [nodeAt?_eq_bind, subtreeAt, Option.bind_assoc]
  exact congrArg _ (funext fun t => Rose.labelAt_append t p.path [i])

/-- The place of the next child is free. -/
theorem nodeAt?_child_of_le (h : f.subtreeAt p = some u) {i : Nat} (hi : u.children.length ≤ i) :
    f.nodeAt? (p.child i) = none := by
  rw [nodeAt?_child, h, Option.bind_some, Rose.labelAt_cons, List.getElem?_eq_none hi]
  rfl

theorem nextChild_of_subtreeAt (h : f.subtreeAt p = some u) :
    f.nextChild p = p.child u.children.length := by
  rw [nextChild, h]
  rfl

/-- A new component goes to one node, and nothing else changes. -/
theorem nodeAt?_addComponent (c : Component) (p q : Place) :
    (f.addComponent c p).nodeAt? q = (f.nodeAt? q).map fun n =>
      if q = p then { n with components := n.components ++ [c] } else n := by
  obtain ⟨i, p⟩ := p
  obtain ⟨j, q⟩ := q
  rw [nodeAt?_eq_bind, nodeAt?_eq_bind, addComponent, modifyAt]
  by_cases hij : i = j
  · subst hij
    rw [List.getElem?_modify_eq]
    simp only [Place.mk.injEq, true_and]
    cases f[i]? with
    | none => rfl
    | some t => exact Rose.labelAt_modifyAt_modifyLabel _ p q t
  · rw [List.getElem?_modify_ne _ _ hij]
    have hne : ∀ n : Node, (if (⟨j, q⟩ : Place) = ⟨i, p⟩ then
        { n with components := n.components ++ [c] } else n) = n := by
      intro n
      exact if_neg fun he => hij (congrArg Place.tree he).symm
    simp only [hne, Option.map_id']

theorem nodeAt?_addComponent_eq_none_iff (c : Component) (p q : Place) :
    (f.addComponent c p).nodeAt? q = none ↔ f.nodeAt? q = none := by
  rw [nodeAt?_addComponent, Option.map_eq_none_iff]

end Forest

/-! ### What a token does to the nodes -/

namespace BuilderState

/-- How many findings there are with a code. -/
def reported (s : BuilderState) (code : String) : Nat := s.findings.countP fun f => f.code = code

theorem reported_record (s : BuilderState) (f : Finding) (code : String) :
    (s.record f).reported code = s.reported code + if f.code = code then 1 else 0 := by
  simp only [reported, record, List.countP_append, List.countP_singleton, decide_eq_true_eq]

/-- Closing nodes closes open nodes, and leaves the rest as it is. -/
theorem closeLevels_spec (index depth : Nat) (s : BuilderState) :
    (s.closeLevels index depth).forest = s.forest ∧ (s.closeLevels index depth).leaf = s.leaf ∧
      (∀ q ∈ (s.closeLevels index depth).stack.items, q ∈ s.stack.items) ∧
      (s.closeLevels index depth).reported "NO_OPEN_CONTAINER" =
        s.reported "NO_OPEN_CONTAINER" := by
  refine closeLevels_induction (motive := fun s' => s'.forest = s.forest ∧ s'.leaf = s.leaf ∧
    (∀ q ∈ s'.stack.items, q ∈ s.stack.items) ∧
    s'.reported "NO_OPEN_CONTAINER" = s.reported "NO_OPEN_CONTAINER")
    ⟨rfl, rfl, fun _ hq => hq, rfl⟩ ?_ ?_
  · rintro s' amount ⟨hf, hl, hs, hr⟩
    exact ⟨hf, hl, fun q hq => hs q (List.mem_of_mem_drop hq), hr⟩
  · rintro s' needed closed ⟨hf, hl, hs, hr⟩
    exact ⟨hf, hl, hs, (reported_record s' _ _).trans hr⟩

/-- A node below a root is lost for want of an open node, or it becomes the next child of one. -/
theorem attachNode_cases (index : Nat) (identifier : String) (beats : Int) (level : Level)
    (s : BuilderState) :
    (∃ s', s.attachNode index identifier beats level = (none, s') ∧ s'.forest = s.forest ∧
        s'.stack.items = [] ∧ s'.leaf = s.leaf ∧
        s'.reported "NO_OPEN_CONTAINER" = s.reported "NO_OPEN_CONTAINER" + 1) ∨
      ∃ s' path, s.attachNode index identifier beats level =
          (some (s.forest.nextChild ⟨s.forest.length - 1, path⟩), s') ∧
        path ∈ s.stack.items ∧
        s'.forest = s.forest.addChild beats ⟨s.forest.length - 1, path⟩ ∧
        (∀ q ∈ s'.stack.items, q ∈ s.stack.items) ∧ s'.leaf = s.leaf ∧
        s'.reported "NO_OPEN_CONTAINER" = s.reported "NO_OPEN_CONTAINER" := by
  obtain ⟨hf, hl, hs, hr⟩ := closeLevels_spec index level.outer s
  unfold attachNode attachChild
  rw [← hf, ← hl, ← hr]
  generalize s.closeLevels index level.outer = s' at hs
  cases hi : s'.stack.items with
  | nil =>
    have ht : s'.stack.top? = none := by rw [Stack.top?, hi]; rfl
    rw [ht]
    refine .inl ⟨_, rfl, rfl, hi, rfl, ?_⟩
    rw [reported_record]
    rfl
  | cons path rest =>
    have ht : s'.stack.top? = some path := by rw [Stack.top?, hi]; rfl
    rw [ht]
    exact .inr ⟨_, path, rfl, hs path (hi ▸ List.mem_cons_self), rfl, hs, rfl, rfl⟩

end BuilderState

/-- What a token asks for that says something about a node below a root. -/
def Extension.instruction (e : Extension) : Instruction :=
  if e.opens then .addInner e.beats e.level else .addLeaf e.beats e.level

/-- An instruction about nodes or their events. -/
def Instruction.isAboutNodes : Instruction → Bool
  | .addRoot _ | .addInner _ _ | .addLeaf _ _ | .attach _ => true
  | _ => false

/-- What a token does to the trees, the open nodes and the current leaf. -/
inductive NodeStep (s : BuilderState) (index : Nat) (t : Token) (s' : BuilderState) : Prop
  /-- It adds a tree, whose root becomes the only open node. -/
  | root (d a : Duration) (asks : t.instruction? = some (.addRoot d))
      (forest : s'.forest = s.forest ++ [.ofDuration d a]) (stack : s'.stack.items = [[]])
      (leaf : s'.leaf = s.leaf)
  /-- It adds a child to an open node of the latest tree. -/
  | child (e : Extension) (path : Address) (asks : t.instruction? = some e.instruction)
      (top : path ∈ s.stack.items)
      (forest : s'.forest = s.forest.addChild e.beats ⟨s.forest.length - 1, path⟩)
      (stack : ∀ q ∈ s'.stack.items, q ∈ s.stack.items ∨
        e.opens = true ∧ q = (s.forest.nextChild ⟨s.forest.length - 1, path⟩).path)
      (leaf : s'.leaf = if e.opens then s.leaf
        else some (s.forest.nextChild ⟨s.forest.length - 1, path⟩))
      (lost : s'.reported "NO_OPEN_CONTAINER" = s.reported "NO_OPEN_CONTAINER")
  /-- It adds nothing, for want of an open node. -/
  | drop (e : Extension) (asks : t.instruction? = some e.instruction)
      (forest : s'.forest = s.forest) (stack : s'.stack.items = []) (leaf : s'.leaf = s.leaf)
      (lost : s'.reported "NO_OPEN_CONTAINER" = s.reported "NO_OPEN_CONTAINER" + 1)
  /-- It attaches events to the current leaf. -/
  | play (events : List Event) (asks : t.instruction? = some (.attach events))
      (eq : s' = s.attach index t.name events)
  /-- It leaves the nodes as they are. -/
  | idle (asks : ∀ i, t.instruction? = some i → i.isAboutNodes = false)
      (forest : s'.forest = s.forest) (stack : s'.stack = s.stack) (leaf : s'.leaf = s.leaf)

namespace BuilderState

theorem leaf_placeRoot (index : Nat) (s : BuilderState) :
    (s.placeRoot index).2.leaf = s.leaf :=
  placeRoot_induction (motive := fun s' => s'.leaf = s.leaf) rfl (fun _ _ h => h) (fun _ _ h => h)
    fun _ _ _ h => h

theorem forest_addRoot (index : Nat) (d : Duration) (s : BuilderState) :
    (s.addRoot index d).forest = s.forest ++ [.ofDuration d (s.placeRoot index).1] := by
  rw [← forest_placeRoot index s]
  rfl

theorem nodeStep_addRoot {t : Token} {d : Duration} (hi : t.instruction? = some (.addRoot d))
    (s : BuilderState) (index : Nat) : NodeStep s index t (s.addRoot index d) :=
  .root d _ hi (forest_addRoot index d s) rfl (leaf_placeRoot index s)

theorem nodeStep_addInner {t : Token} {beats : Int} {level : Level}
    (hi : t.instruction? = some (.addInner beats level)) (s : BuilderState) (index : Nat) :
    NodeStep s index t (s.addInner index t.name beats level) := by
  rcases attachNode_cases index t.name beats level s with
    ⟨s', e, hf, hs, hl, hr⟩ | ⟨s', path, e, ht, hf, hs, hl, hr⟩
  · rw [addInner, e]
    exact .drop ⟨true, beats, level⟩ hi hf hs hl hr
  · rw [addInner, e]
    refine .child ⟨true, beats, level⟩ path hi ht hf (fun q hq => ?_) hl hr
    rcases List.mem_cons.mp hq with rfl | hq
    · exact .inr ⟨rfl, rfl⟩
    · exact .inl (hs q hq)

theorem nodeStep_addLeaf {t : Token} {beats : Int} {level : Level}
    (hi : t.instruction? = some (.addLeaf beats level)) (s : BuilderState) (index : Nat) :
    NodeStep s index t (s.addLeaf index t.name beats level) := by
  rcases attachNode_cases index t.name beats level s with
    ⟨s', e, hf, hs, hl, hr⟩ | ⟨s', path, e, ht, hf, hs, hl, hr⟩
  · rw [addLeaf, e]
    exact .drop ⟨false, beats, level⟩ hi hf hs hl hr
  · rw [addLeaf, e]
    exact .child ⟨false, beats, level⟩ path hi ht hf (fun q hq => .inl (hs q hq)) rfl hr

theorem nodeStep_idle {t : Token} {i : Instruction} (hi : t.instruction? = some i)
    (h : i.isAboutNodes = false) (s : BuilderState) (index : Nat) :
    NodeStep s index t (s.perform index t.name i) := by
  have asks : ∀ j, t.instruction? = some j → j.isAboutNodes = false := by
    intro j hj
    rwa [Option.some.inj (hj.symm.trans hi)]
  cases i with
  | addRoot d => cases h
  | addInner beats level | addLeaf beats level => cases h
  | attach events => cases h
  | openMeasure =>
    show NodeStep s index t s.openMeasure
    unfold openMeasure closeMeasure
    split <;> exact .idle asks rfl rfl rfl
  | setMode mode => cases mode <;> exact .idle asks rfl rfl rfl
  | storeValue value =>
    show NodeStep s index t (s.storeValue index value)
    unfold storeValue
    split <;> exact .idle asks rfl rfl rfl
  | _ => exact .idle asks rfl rfl rfl

/-- Every token takes one of these steps. -/
theorem nodeStep_after (s : BuilderState) (index : Nat) (t : Token) :
    NodeStep s index t (s.after index t) := by
  cases hi : t.instruction? with
  | none =>
    have asks : ∀ i, t.instruction? = some i → i.isAboutNodes = false := by
      intro i hi'
      rw [hi] at hi'
      cases hi'
    rcases after_of_instruction?_eq_none hi s index with h | h <;> rw [h] <;>
      exact .idle asks rfl rfl rfl
  | some i =>
    rw [after_of_instruction? hi]
    cases i with
    | addRoot d => exact nodeStep_addRoot hi s index
    | addInner beats level => exact nodeStep_addInner hi s index
    | addLeaf beats level => exact nodeStep_addLeaf hi s index
    | attach events => exact .play events hi rfl
    | _ => exact nodeStep_idle hi rfl s index

/-! ### Events -/

/-- An event becomes a component of the current leaf, or it is recorded as lost. -/
theorem attachEvent_cases (index : Nat) (identifier : String) (event : Event)
    (s : BuilderState) :
    (∃ c place, s.leaf = some place ∧
        s.attachEvent index identifier event = { s with forest := s.forest.addComponent c place }) ∨
      s.attachEvent index identifier event =
        s.record (.missingContext index identifier s.lacks) := by
  unfold attachEvent
  split
  · next place performer instrument hl _ _ => exact .inl ⟨_, place, hl, rfl⟩
  · exact .inr rfl

/-- Two states with the same open nodes, the same current leaf and nodes at the same places. -/
structure SamePlaces (s s' : BuilderState) : Prop where
  stack : s'.stack = s.stack
  leaf : s'.leaf = s.leaf
  length : s'.forest.length = s.forest.length
  nodeAt? : ∀ q, s'.forest.nodeAt? q = none ↔ s.forest.nodeAt? q = none

theorem SamePlaces.attachEvent {s s' : BuilderState} (h : SamePlaces s s') (index : Nat)
    (identifier : String) (event : Event) :
    SamePlaces s (s'.attachEvent index identifier event) := by
  rcases attachEvent_cases index identifier event s' with ⟨c, place, -, e⟩ | e
  · rw [e]
    exact ⟨h.stack, h.leaf, (Forest.length_addComponent _ _ _).trans h.length,
      fun q => (Forest.nodeAt?_addComponent_eq_none_iff c place q).trans (h.nodeAt? q)⟩
  · rw [e]
    exact ⟨h.stack, h.leaf, h.length, h.nodeAt?⟩

theorem samePlaces_attach (index : Nat) (identifier : String) (events : List Event)
    (s : BuilderState) : SamePlaces s (s.attach index identifier events) :=
  attach_induction (motive := SamePlaces s) ⟨rfl, rfl, rfl, fun _ => .rfl⟩
    fun _ event h => h.attachEvent index identifier event

/-! ### Along a run -/

/-- Every open node stands in the latest tree. -/
def OpenStands (s : BuilderState) : Prop :=
  ∀ q ∈ s.stack.items, s.forest.nodeAt? ⟨s.forest.length - 1, q⟩ ≠ none

theorem OpenStands.after {s : BuilderState} (h : s.OpenStands) (index : Nat) (t : Token) :
    (s.after index t).OpenStands := by
  intro q hq
  cases nodeStep_after s index t with
  | root d a _ hf hs _ =>
    rw [hs, List.mem_singleton] at hq
    rw [hq, hf, List.length_append, List.length_singleton, Nat.add_sub_cancel,
      Forest.nodeAt?_eq_bind, List.getElem?_concat_length]
    exact Option.some_ne_none _
  | child e path _ hp hf hs _ _ =>
    obtain ⟨u, hu⟩ := Forest.nodeAt?_ne_none_iff.mp (h path hp)
    rw [hf, Forest.length_addChild, Forest.nodeAt?_addChild hu]
    split
    · exact Option.some_ne_none _
    · next hne =>
      rcases hs q hq with hq | ⟨-, rfl⟩
      · exact h q hq
      · rw [Forest.nextChild_of_subtreeAt hu] at hne
        exact absurd rfl hne
  | drop e _ _ hs _ _ =>
    rw [hs] at hq
    cases hq
  | play events _ e =>
    have hp := samePlaces_attach index t.name events s
    rw [e, hp.stack] at hq
    rw [e, hp.length, ne_eq, hp.nodeAt?]
    exact h q hq
  | idle _ hf hs _ =>
    rw [hs] at hq
    rw [hf]
    exact h q hq

/-- **Every open node stands in the latest tree.** -/
theorem open_stands (ts : List Token) : (reached ts).OpenStands := by
  induction ts using List.reverseRecOn with
  | nil =>
    intro q hq
    cases hq
  | append_singleton ts t ih =>
    rw [reached_concat]
    exact ih.after ts.length t

end BuilderState

end RhythmTree
