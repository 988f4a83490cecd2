import RhythmTree.Proofs.OpenNodes

/-!
# Where components sit

Components go to the current leaf only, and nodes go below open nodes only. The nodes that leaf
tokens make are never opened, so no node comes below one of them, and the current leaf is always one
of them, even if it belongs to an earlier tree.

* `MadeBy`: the nodes that the tokens of a keyword make.
* `Decorated`, `Decorated.after`: what keeps components on them, and why every token keeps it.
* `childless_of_decorated`: **components sit on nodes without children, made by leaf tokens.**
-/

namespace RhythmTree

open BuilderState

/-! ### Tokens of nodes below a root -/

/-- The keyword of the tokens that say such a thing about a node. -/
def Extension.keyword (e : Extension) : Keyword := if e.opens then .innerNode else .leafNode

namespace Token

variable {t : Token}

theorem isAtomOf_of_addRoot {d : Duration} (h : t.instruction? = some (.addRoot d)) :
    t.IsAtomOf .rootDuration := by
  obtain ⟨k, hk, hc⟩ := exists_keyword_of_instruction? h
  obtain ⟨hm, ha⟩ := isAtomOf_of_mem hk hc
  rwa [List.mem_singleton.mp hm] at ha

theorem isAtomOf_of_extension {e : Extension} (h : t.instruction? = some e.instruction) :
    t.IsAtomOf e.keyword := by
  obtain ⟨opens, beats, level⟩ := e
  obtain ⟨k, hk, hc⟩ := exists_keyword_of_instruction? h
  cases opens <;>
  · obtain ⟨hm, ha⟩ := isAtomOf_of_mem hk hc
    rwa [List.mem_singleton.mp hm] at ha

theorem IsAtomOf.unique {k k' : Keyword} (h : t.IsAtomOf k) (h' : t.IsAtomOf k') : k = k' :=
  h.2.unique h'.2

/-- A token of a node below a root is a leaf token exactly if it does not open the node. -/
theorem isAtomOf_leafNode_iff {e : Extension} (h : t.instruction? = some e.instruction) :
    t.IsAtomOf .leafNode ↔ e.opens = false := by
  have hk := isAtomOf_of_extension h
  rw [Extension.keyword] at hk
  cases ho : e.opens with
  | true =>
    rw [ho] at hk
    exact iff_of_false (fun hl => absurd (hl.unique hk) (by decide)) (by decide)
  | false =>
    rw [ho] at hk
    exact iff_of_true hk rfl

end Token

/-! ### The nodes of the tokens of a keyword -/

/-- A token of the stream with a keyword has created the node at a place. -/
def MadeBy (k : Keyword) (ts : List Token) (p : Place) : Prop :=
  ∃ before t after, ts = before ++ t :: after ∧ t.IsAtomOf k ∧ Creates before t p

theorem not_madeBy_nil (k : Keyword) (p : Place) : ¬ MadeBy k [] p := by
  rintro ⟨before, t, after, h, -, -⟩
  simp at h

theorem madeBy_concat {k : Keyword} {ts : List Token} {t : Token} {p : Place} :
    MadeBy k (ts ++ [t]) p ↔ MadeBy k ts p ∨ t.IsAtomOf k ∧ Creates ts t p := by
  constructor
  · rintro ⟨before, u, after, h, hu, hc⟩
    rcases List.eq_nil_or_concat after with rfl | ⟨after, v, rfl⟩
    · obtain ⟨rfl, hv⟩ := List.append_inj' h rfl
      rw [List.cons.inj hv |>.1]
      exact .inr ⟨hu, hc⟩
    · rw [List.concat_eq_append, ← List.cons_append, ← List.append_assoc] at h
      exact .inl ⟨before, u, after, (List.append_inj' h rfl).1, hu, hc⟩
  · rintro (⟨before, u, after, rfl, hu, hc⟩ | ⟨ht, hc⟩)
    · exact ⟨before, u, after ++ [t], by rw [List.append_assoc, List.cons_append], hu, hc⟩
    · exact ⟨ts, t, [], rfl, ht, hc⟩

namespace Place

theorem child_inj {p q : Place} {i j : Nat} (h : p.child i = q.child j) : p = q := by
  obtain ⟨k, p⟩ := p
  obtain ⟨l, q⟩ := q
  obtain ⟨rfl, hp⟩ := Place.mk.inj h
  exact congrArg _ (List.append_inj' hp rfl).1

theorem child_ne_self (p : Place) (i : Nat) : p.child i ≠ p := by
  intro h
  simpa [child] using congrArg (fun q => q.path.length) h

end Place

namespace Forest

/-- Below a place without a node there is none. -/
theorem nodeAt?_child_of_eq_none {f : Forest} {p : Place} (h : f.nodeAt? p = none) (i : Nat) :
    f.nodeAt? (p.child i) = none := by
  rw [nodeAt?_child, Option.map_eq_none_iff.mp h, Option.bind_none]

theorem children_eq_nil_of_nodeAt? {f : Forest} {p : Place} {u : Tree}
    (h : f.subtreeAt p = some u) (hc : f.nodeAt? (p.child 0) = none) : u.children = [] := by
  rw [nodeAt?_child, h, Option.bind_some, Rose.labelAt_cons] at hc
  cases hu : u.children with
  | nil => rfl
  | cons c rest =>
    rw [hu] at hc
    cases hc

/-- A new tree of one node takes one place, and no other node changes. -/
theorem nodeAt?_concat_node (f : Forest) (n : Node) (p : Place) :
    nodeAt? (f ++ [.node n []]) p = if p = f.nextRoot then some n else f.nodeAt? p := by
  obtain ⟨i, p⟩ := p
  rw [nodeAt?_eq_bind, nodeAt?_eq_bind, nextRoot, getElem?_concat_eq_ite]
  by_cases hi : i = f.length
  · subst hi
    rw [if_pos rfl, List.getElem?_eq_none (Nat.le_refl _)]
    cases p with
    | nil => exact (if_pos rfl).symm
    | cons j p => exact (if_neg (by simp)).symm
  · rw [if_neg hi, if_neg fun he => hi (congrArg Place.tree he)]

/-- A new tree changes nothing at the places below the others, and it has no components. -/
theorem nodeAt?_concat (f : Forest) (d a : Duration) (p : Place) :
    nodeAt? (f ++ [.ofDuration d a]) p =
      if p = f.nextRoot then some { duration := d, offset := a } else f.nodeAt? p :=
  nodeAt?_concat_node f _ p

theorem nodeAt?_nextRoot (f : Forest) : f.nodeAt? f.nextRoot = none := by
  rw [nodeAt?_eq_bind, nextRoot, List.getElem?_eq_none (Nat.le_refl _)]
  rfl

end Forest

/-! ### What keeps components on them -/

/-- Components are on nodes among some only, which have no children, are not open, and contain the
current leaf. -/
structure Decorated (s : BuilderState) (made : Place → Prop) : Prop where
  stands : ∀ p, made p → s.forest.nodeAt? p ≠ none
  childless : ∀ p, made p → ∀ i, s.forest.nodeAt? (p.child i) = none
  closed : ∀ q ∈ s.stack.items, ¬ made ⟨s.forest.length - 1, q⟩
  current : ∀ p, s.leaf = some p → made p
  components : ∀ p n, s.forest.nodeAt? p = some n → n.components ≠ [] → made p

namespace Decorated

variable {s s' : BuilderState} {made made' : Place → Prop}

/-- A new tree has no components, and takes a place where nothing stands. -/
theorem root (h : Decorated s made) {d a : Duration}
    (hf : s'.forest = s.forest ++ [.ofDuration d a]) (hs : s'.stack.items = [[]])
    (hl : s'.leaf = s.leaf) : Decorated s' made := by
  have hfree : s.forest.nodeAt? s.forest.nextRoot = none := Forest.nodeAt?_nextRoot s.forest
  refine ⟨fun p hp => ?_, fun p hp i => ?_, fun q hq hm => ?_, fun p hp => ?_,
    fun p n hn hc => ?_⟩
  · rw [hf, Forest.nodeAt?_concat]
    split
    · exact Option.some_ne_none _
    · exact h.stands p hp
  · rw [hf, Forest.nodeAt?_concat, if_neg]
    · exact h.childless p hp i
    · intro he
      simpa [Place.child, Forest.nextRoot] using congrArg Place.path he
  · rw [hs, List.mem_singleton] at hq
    rw [hq, hf, List.length_append, List.length_singleton, Nat.add_sub_cancel] at hm
    exact h.stands _ hm hfree
  · exact h.current p (hl ▸ hp)
  · rw [hf, Forest.nodeAt?_concat] at hn
    split at hn
    · cases hn
      exact absurd rfl hc
    · exact h.components p n hn hc

/-- A new child comes below an open node, and is one of the nodes unless it is open itself. -/
theorem child (h : Decorated s made) {e : Extension} {path : Address} {u : Tree}
    (hp : path ∈ s.stack.items) (ho : s.OpenStands)
    (hu : s.forest.subtreeAt ⟨s.forest.length - 1, path⟩ = some u)
    (hf : s'.forest = s.forest.addChild e.beats ⟨s.forest.length - 1, path⟩)
    (hs : ∀ q ∈ s'.stack.items, q ∈ s.stack.items ∨
      e.opens = true ∧ q = (Place.child ⟨s.forest.length - 1, path⟩ u.children.length).path)
    (hl : s'.leaf = if e.opens then s.leaf
      else some (Place.child ⟨s.forest.length - 1, path⟩ u.children.length))
    (hm : ∀ p, made' p ↔ made p ∨
      e.opens = false ∧ p = Place.child ⟨s.forest.length - 1, path⟩ u.children.length) :
    Decorated s' made' := by
  have hfree := Forest.nodeAt?_child_of_le hu (Nat.le_refl _)
  have hnode := Forest.nodeAt?_addChild hu e.beats
  rw [← hf] at hnode
  refine ⟨fun p hp' => ?_, fun p hp' i => ?_, fun q hq hq' => ?_, fun p hp' => ?_,
    fun p n hn hc => ?_⟩
  · rw [hnode]
    split
    · exact Option.some_ne_none _
    · next hne =>
      rcases (hm p).mp hp' with hp' | ⟨-, rfl⟩
      · exact h.stands p hp'
      · exact absurd rfl hne
  · rw [hnode]
    rcases (hm p).mp hp' with hp' | ⟨-, rfl⟩
    · -- the new node is below an open node, which `p` is not
      rw [if_neg, h.childless p hp' i]
      intro he
      rw [Place.child_inj he] at hp'
      exact h.closed path hp hp'
    · rw [if_neg (Place.child_ne_self _ i)]
      exact Forest.nodeAt?_child_of_eq_none hfree i
  · -- an open node stands already, or it is the new one; none of the nodes is either
    rw [hf, Forest.length_addChild] at hq'
    rcases hs q hq, (hm _).mp hq' with ⟨hq | ⟨ho', rfl⟩, hq' | ⟨hl', he⟩⟩
    · exact h.closed q hq hq'
    · exact ho q hq (he ▸ hfree)
    · exact h.stands _ hq' hfree
    · rw [ho'] at hl'
      cases hl'
  · rw [hl] at hp'
    split at hp'
    · exact (hm p).mpr (.inl (h.current p hp'))
    · next hopen => exact (hm p).mpr (.inr ⟨eq_false_of_ne_true hopen, (Option.some.inj hp').symm⟩)
  · rw [hnode] at hn
    split at hn
    · cases hn
      exact absurd rfl hc
    · exact (hm p).mpr (.inl (h.components p n hn hc))

/-- Changes that keep all nodes, their components and the current leaf, and open no node. -/
theorem idle (h : Decorated s made) (hf : s'.forest = s.forest)
    (hs : ∀ q ∈ s'.stack.items, q ∈ s.stack.items) (hl : s'.leaf = s.leaf) :
    Decorated s' made := by
  refine ⟨?_, ?_, ?_, ?_, ?_⟩
  · rw [hf]
    exact h.stands
  · rw [hf]
    exact h.childless
  · rw [hf]
    exact fun q hq => h.closed q (hs q hq)
  · rw [hl]
    exact h.current
  · rw [hf]
    exact h.components

/-- An event goes to the current leaf. -/
theorem attachEvent (h : Decorated s made) (index : Nat) (identifier : String) (event : Event) :
    Decorated (s.attachEvent index identifier event) made := by
  rcases attachEvent_cases index identifier event s with ⟨c, place, hl, e⟩ | e
  · rw [e]
    refine ⟨fun p hp => ?_, fun p hp i => ?_, fun q hq hm => ?_, h.current, fun p n hn hc => ?_⟩
    · rw [ne_eq, Forest.nodeAt?_addComponent_eq_none_iff]
      exact h.stands p hp
    · rw [Forest.nodeAt?_addComponent_eq_none_iff]
      exact h.childless p hp i
    · rw [Forest.length_addComponent] at hm
      exact h.closed q hq hm
    · rw [Forest.nodeAt?_addComponent] at hn
      obtain ⟨m, hm, rfl⟩ := Option.map_eq_some_iff.mp hn
      split at hc
      · next he => exact he ▸ h.current place hl
      · exact h.components p m hm hc
  · rw [e]
    exact h.idle rfl (fun q hq => hq) rfl

theorem attach (h : Decorated s made) (index : Nat) (identifier : String) (events : List Event) :
    Decorated (s.attach index identifier events) made :=
  attach_induction (motive := fun s => Decorated s made) h
    fun _ event h => h.attachEvent index identifier event

/-- **Every token keeps components on the nodes of leaf tokens.** -/
theorem after (h : Decorated s made) (ho : s.OpenStands) (index : Nat) (t : Token)
    (hm : ∀ p, made' p ↔ made p ∨ t.IsAtomOf .leafNode ∧ s.forest.nodeAt? p = none ∧
      (s.after index t).forest.nodeAt? p ≠ none) : Decorated (s.after index t) made' := by
  -- a token that makes no node with its kind of token leaves the set of nodes as it is
  have same : (∀ p, t.IsAtomOf .leafNode → s.forest.nodeAt? p = none →
      (s.after index t).forest.nodeAt? p = none) → made' = made := by
    intro hn
    refine funext fun p => propext ((hm p).trans ⟨?_, .inl⟩)
    rintro (hp | ⟨hl, hf, hs⟩)
    · exact hp
    · exact absurd (hn p hl hf) hs
  cases nodeStep_after s index t with
  | root d a hi hf hs hl =>
    rw [same fun p hleaf => absurd (hleaf.unique (Token.isAtomOf_of_addRoot hi)) (by decide)]
    exact h.root hf hs hl
  | child e path hi hp hf hs hl _ =>
    obtain ⟨u, hu⟩ := Forest.nodeAt?_ne_none_iff.mp (ho path hp)
    rw [Forest.nextChild_of_subtreeAt hu] at hs hl
    refine h.child hp ho hu hf hs hl fun p => ?_
    rw [hm, Token.isAtomOf_leafNode_iff hi, hf, Forest.nodeAt?_addChild hu]
    refine or_congr_right (and_congr_right fun _ => ?_)
    constructor
    · rintro ⟨hn, hs⟩
      by_contra hne
      rw [if_neg hne] at hs
      exact hs hn
    · rintro rfl
      refine ⟨Forest.nodeAt?_child_of_le hu (Nat.le_refl _), ?_⟩
      rw [if_pos rfl]
      exact Option.some_ne_none _
  | drop e _ hf hs hl _ =>
    rw [same fun p _ hn => by rw [hf, hn]]
    exact h.idle hf (by simp [hs]) hl
  | play events _ e =>
    rw [same fun p _ hn => by rw [e, (samePlaces_attach _ _ _ _).nodeAt?, hn], e]
    exact h.attach index t.name events
  | idle _ hf hs hl =>
    rw [same fun p _ hn => by rw [hf, hn]]
    exact h.idle hf (by rw [hs]; exact fun q hq => hq) hl

end Decorated

/-! ### Along a run -/

theorem decorated_reached (ts : List Token) : Decorated (reached ts) (MadeBy .leafNode ts) := by
  induction ts using List.reverseRecOn with
  | nil =>
    refine ⟨fun p hp => ?_, fun p hp => ?_, fun q hq => ?_, fun p hp => ?_, fun p n hn => ?_⟩
    · exact absurd hp (not_madeBy_nil _ p)
    · exact absurd hp (not_madeBy_nil _ p)
    · cases hq
    · cases hp
    · cases hn
  | append_singleton ts t ih =>
    rw [reached_concat]
    refine ih.after (open_stands ts) ts.length t fun p => ?_
    rw [madeBy_concat, Creates, reached_concat]

/-- **Components sit on nodes without children, made by leaf tokens.** -/
theorem childless_of_decorated {ts : List Token} {p : Place} {u : Tree}
    (h : (reached ts).forest.subtreeAt p = some u) (hc : u.label.components ≠ []) :
    u.children = [] ∧ MadeBy .leafNode ts p := by
  have hd := decorated_reached ts
  have hm : MadeBy .leafNode ts p := by
    refine hd.components p u.label ?_ hc
    rw [Forest.nodeAt?, h]
    rfl
  exact ⟨Forest.children_eq_nil_of_nodeAt? h (hd.childless p hm 0), hm⟩

end RhythmTree
