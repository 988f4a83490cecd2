import Mathlib.Data.List.Chain
import RhythmTree.Proofs.Decoration
import RhythmTree.Proofs.Prefixes

/-!
# The chain of open nodes

A builder counts levels beside its stack, and the two can disagree; a token can also close more
nodes than are open. Whatever happens, the stack is cut off at its inner end only, so what is left
of it is a root and a way down from it.

* `isChain_reached`: **the open nodes are a node and those above it, or there are none.**
* `OpenChain`: what the open nodes are in the trees, and where they come from.
* `GrowsInside`: where the token of a node adds it.
* `open_chain`: **the open nodes are the latest root, a child of it, a child of that child and so
  on; a node is added below the innermost of them, and earlier trees keep their shape.**
-/

namespace RhythmTree

open BuilderState

/-! ### Chains -/

theorem items_chain_concat (q : Address) (i : Nat) :
    (chain (q ++ [i])).items = (q ++ [i]) :: (chain q).items := by
  rw [chain_concat]
  rfl

/-- The items of a chain are the node and the nodes above it. -/
theorem mem_items_chain {p q : Address} : p ∈ (chain q).items ↔ p <+: q := by
  rw [chain, Stack.ofList, List.mem_reverse, List.mem_inits]

theorem getLast?_items_chain (q : Address) : (chain q).items.getLast? = some [] := by
  rw [chain, Stack.ofList, List.getLast?_reverse]
  cases q <;> rfl

theorem isChain_items_chain (q : Address) :
    (chain q).items.IsChain fun inner outer => ∃ i, inner = outer ++ [i] := by
  induction q using List.reverseRecOn with
  | nil => exact .singleton _
  | append_singleton q i ih =>
    rw [items_chain_concat]
    rcases List.eq_nil_or_concat q with rfl | ⟨p, j, rfl⟩
    · exact List.isChain_cons_cons.mpr ⟨⟨i, rfl⟩, ih⟩
    · rw [List.concat_eq_append, items_chain_concat] at ih ⊢
      exact List.isChain_cons_cons.mpr ⟨⟨i, rfl⟩, ih⟩

/-- A node and the nodes above it are open, or none is. -/
def Stack.IsChain (s : Stack Address) : Prop := s.items = [] ∨ ∃ q, s = chain q

theorem Stack.IsChain.pop {s : Stack Address} (h : s.IsChain) (amount : Int) :
    (s.pop amount).IsChain := by
  rcases h with h | ⟨q, rfl⟩
  · left
    rw [Stack.pop, h, List.drop_nil]
  · obtain ⟨n, hn⟩ : ∃ n, (chain q).closable amount = n := ⟨_, rfl⟩
    have hle : n ≤ q.length + 1 := by
      rw [← hn, ← size_chain]
      exact Nat.min_le_right _ _
    rcases Nat.lt_or_ge q.length n with hlt | hle'
    · -- closing one node more than there are above the innermost one empties the stack
      left
      rw [Stack.pop, hn]
      apply List.drop_eq_nil_of_le
      have hz : (chain q).items.length = q.length + 1 := size_chain q
      omega
    · right
      refine ⟨q.take (q.length - n), ?_⟩
      have hl : (q.drop (q.length - n)).length = n := by
        rw [List.length_drop]
        omega
      have hp := pop_chain (q.take (q.length - n)) (q.drop (q.length - n))
      rw [List.take_append_drop, hl, Stack.pop, closable_natCast (by rw [size_chain]; omega)] at hp
      rw [Stack.pop, hn]
      exact hp

namespace BuilderState

/-- Closing levels pops the stack, and changes nothing else about the nodes. -/
theorem isChain_closeLevels {s : BuilderState} (h : s.stack.IsChain) (index depth : Nat) :
    (s.closeLevels index depth).stack.IsChain :=
  closeLevels_induction (motive := fun s => s.stack.IsChain) h (fun _ amount h => h.pop amount)
    fun _ _ _ h => h

/-- The places of the open nodes, the innermost first. -/
def openPlaces (s : BuilderState) : List Place :=
  s.stack.items.map fun path => ⟨s.forest.length - 1, path⟩

theorem openPlaces_eq_nil_iff {s : BuilderState} : s.openPlaces = [] ↔ s.stack.items = [] :=
  List.map_eq_nil_iff

/-! ### What a node token does -/

/-- Where the token of a node below a root adds the node, after it has closed some open nodes. -/
inductive Adds (s closed s' : BuilderState) (e : Extension) : Prop
  /-- No node is open any more, and the new one is lost. -/
  | lost (empty : closed.stack.items = []) (stack : s'.stack = closed.stack)
      (forest : s'.forest = s.forest)
  /-- The node becomes a child of the innermost open node. -/
  | child (path : Address) (i : Nat) (innermost : closed.stack = chain path)
      (stack : s'.stack = if e.opens then chain (path ++ [i]) else chain path)
      (length : s'.forest.length = s.forest.length)
      (nodes : ∀ q, s'.forest.nodeAt? q =
        if q = ⟨s.forest.length - 1, path ++ [i]⟩ then some { beats := e.beats }
        else s.forest.nodeAt? q)

theorem attachChild_empty {s : BuilderState} (hs : s.stack.items = []) (index : Nat)
    (identifier : String) (beats : Int) (depth : Nat) :
    s.attachChild index identifier beats depth =
      (none, s.record (.noContainer index identifier beats)) := by
  have ht : s.stack.top? = none := by
    rw [Stack.top?, hs]
    rfl
  rw [attachChild, ht]

theorem attachChild_chain {s : BuilderState} {path : Address} (hs : s.stack = chain path)
    (index : Nat) (identifier : String) (beats : Int) (depth : Nat) :
    s.attachChild index identifier beats depth =
      (some (s.forest.nextChild ⟨s.forest.length - 1, path⟩),
        { s with
          forest := s.forest.addChild beats ⟨s.forest.length - 1, path⟩
          depth := depth }) := by
  rw [attachChild, hs, top?_chain]

section

variable {s after : BuilderState} {e : Extension} {index : Nat} {identifier : String}

theorem perform_extension_of_none
    (h : s.attachNode index identifier e.beats e.level = (none, after)) :
    s.perform index identifier e.instruction = after := by
  rw [Extension.instruction]
  cases e.opens with
  | true =>
    show s.addInner index identifier e.beats e.level = after
    rw [addInner, h]
  | false =>
    show s.addLeaf index identifier e.beats e.level = after
    rw [addLeaf, h]

/-- A node that is attached is opened or becomes the current leaf. -/
theorem perform_extension_of_some {p : Place}
    (h : s.attachNode index identifier e.beats e.level = (some p, after)) :
    s.perform index identifier e.instruction =
      if e.opens then { after with stack := after.stack.push p.path }
      else { after with leaf := some p } := by
  rw [Extension.instruction]
  cases e.opens with
  | true =>
    show s.addInner index identifier e.beats e.level = _
    rw [addInner, h]
    rfl
  | false =>
    show s.addLeaf index identifier e.beats e.level = _
    rw [addLeaf, h]
    rfl

end

/-- **A node goes below the innermost open node of the latest tree.** -/
theorem adds_perform {s : BuilderState} (hc : s.stack.IsChain) (ho : s.OpenStands) (index : Nat)
    (identifier : String) (e : Extension) :
    Adds s (s.closeLevels index e.level.outer) (s.perform index identifier e.instruction) e := by
  have hclosed := isChain_closeLevels hc index e.level.outer
  obtain ⟨hf, -, hsub, -⟩ := closeLevels_spec index e.level.outer s
  have hattach : s.attachNode index identifier e.beats e.level =
      (s.closeLevels index e.level.outer).attachChild index identifier e.beats e.level.outer := rfl
  generalize s.closeLevels index e.level.outer = closed at *
  rcases hclosed with hempty | ⟨path, hpath⟩
  · rw [perform_extension_of_none (hattach.trans (attachChild_empty hempty _ _ _ _))]
    exact .lost hempty rfl hf
  · have hmem : path ∈ s.stack.items := hsub path (hpath ▸ mem_items_chain.mpr List.prefix_rfl)
    obtain ⟨u, hu⟩ := Forest.nodeAt?_ne_none_iff.mp (ho path hmem)
    have hp := perform_extension_of_some (hattach.trans (attachChild_chain hpath _ _ _ _))
    rw [hf, Forest.nextChild_of_subtreeAt hu] at hp
    have hforest : (s.perform index identifier e.instruction).forest =
        s.forest.addChild e.beats ⟨s.forest.length - 1, path⟩ := by
      rw [hp]
      cases e.opens <;> rfl
    refine .child path u.children.length hpath ?_ ?_ fun q => ?_
    · rw [hp, chain_concat, ← hpath]
      cases e.opens <;> rfl
    · rw [hforest, Forest.length_addChild]
    · rw [hforest]
      exact Forest.nodeAt?_addChild hu e.beats q

/-! ### Along a run -/

theorem isChain_after {s : BuilderState} (hc : s.stack.IsChain) (ho : s.OpenStands) (index : Nat)
    (t : Token) : (s.after index t).stack.IsChain := by
  have adds : ∀ e : Extension, t.instruction? = some e.instruction →
      (s.after index t).stack.IsChain := by
    intro e hi
    rw [after_of_instruction? hi]
    cases adds_perform hc ho index t.name e with
    | lost hempty hs _ =>
      left
      rw [hs, hempty]
    | child path i _ hs _ _ =>
      right
      rw [hs]
      cases e.opens with
      | true => exact ⟨path ++ [i], rfl⟩
      | false => exact ⟨path, rfl⟩
  cases nodeStep_after s index t with
  | root d a _ _ hs _ => exact .inr ⟨[], congrArg Stack.mk hs⟩
  | child e _ hi => exact adds e hi
  | drop e hi => exact adds e hi
  | play events _ he =>
    rw [he, (samePlaces_attach index t.name events s).stack]
    exact hc
  | idle _ _ hs _ =>
    rw [hs]
    exact hc

/-- **The open nodes are a node and those above it, or there are none.** -/
theorem isChain_reached (ts : List Token) : (reached ts).stack.IsChain := by
  induction ts using List.reverseRecOn with
  | nil => exact .inl rfl
  | append_singleton ts t ih =>
    rw [reached_concat]
    exact isChain_after ih (open_stands ts) ts.length t

end BuilderState

/-! ### Where the open nodes come from -/

/-- The last token of a tree has created the node at a place, a root. -/
def LatestRoot (ts : List Token) (p : Place) : Prop :=
  ∃ before t after, ts = before ++ t :: after ∧ t.startsTree = true ∧ Creates before t p ∧
    p.path = [] ∧ ∀ u ∈ after, u.startsTree = false

theorem LatestRoot.concat {ts : List Token} {p : Place} (h : LatestRoot ts p) {t : Token}
    (ht : t.startsTree = false) : LatestRoot (ts ++ [t]) p := by
  obtain ⟨before, u, after, rfl, hu, hc, hp, ha⟩ := h
  refine ⟨before, u, after ++ [t], by simp, hu, hc, hp, fun v hv => ?_⟩
  rcases List.mem_append.mp hv with hv | hv
  · exact ha v hv
  · rw [List.mem_singleton.mp hv, ht]

/-- A token that says something about a node below a root asks for that node. -/
theorem instruction?_of_extension? {t : Token} {e : Extension} (h : t.extension? = some e) :
    t.instruction? = some e.instruction := by
  unfold Token.extension? at h
  split at h
  · next hi =>
    obtain rfl := Option.some.inj h
    exact hi
  · next hi =>
    obtain rfl := Option.some.inj h
    exact hi
  · cases h

theorem Extension.instruction_ne_addRoot (e : Extension) (d : Duration) :
    e.instruction ≠ .addRoot d := by
  rw [Extension.instruction]
  split <;> exact Instruction.noConfusion

theorem startsTree_eq_false {t : Token}
    (h : ∀ d, t.instruction? ≠ some (.addRoot d)) : t.startsTree = false := by
  by_contra hs
  obtain ⟨d, hd⟩ := Token.exists_instruction?_of_startsTree (by simpa using hs)
  exact h d hd

/-- **Behind the token of a tree, its root is the latest one until the next such token.** -/
theorem latestRoot_reached (ts : List Token) (h : (reached ts).forest ≠ []) :
    LatestRoot ts ⟨(reached ts).forest.length - 1, []⟩ := by
  induction ts using List.reverseRecOn with
  | nil => exact absurd rfl h
  | append_singleton ts t ih =>
    have same : (reached (ts ++ [t])).forest.length = (reached ts).forest.length →
        (∀ d, t.instruction? ≠ some (.addRoot d)) →
        LatestRoot (ts ++ [t]) ⟨(reached (ts ++ [t])).forest.length - 1, []⟩ := by
      intro hl hi
      rw [hl]
      refine (ih fun hz => h ?_).concat (startsTree_eq_false hi)
      rw [hz] at hl
      exact List.eq_nil_of_length_eq_zero hl
    rw [reached_concat] at same ⊢
    cases nodeStep_after (reached ts) ts.length t with
    | root d a hi hf _ _ =>
      refine ⟨ts, t, [], rfl, ?_, ?_, rfl, by simp⟩
      · rw [Token.startsTree, Token.duration?, hi]
        rfl
      · rw [Creates, reached_concat, hf, List.length_append, List.length_singleton,
          Nat.add_sub_cancel, Forest.nodeAt?_concat, Forest.nextRoot, if_pos rfl]
        refine ⟨?_, Option.some_ne_none _⟩
        rw [Forest.nodeAt?_eq_bind, List.getElem?_eq_none (Nat.le_refl _)]
        rfl
    | child e path hi _ hf _ _ _ =>
      refine same (by rw [hf, Forest.length_addChild]) fun d hd => ?_
      exact e.instruction_ne_addRoot d (Option.some.inj (hi.symm.trans hd))
    | drop e hi hf _ _ _ =>
      refine same (by rw [hf]) fun d hd => ?_
      exact e.instruction_ne_addRoot d (Option.some.inj (hi.symm.trans hd))
    | play events hi he =>
      refine same (by rw [he, (samePlaces_attach _ _ _ _).length]) fun d hd => ?_
      rw [hi] at hd
      cases hd
    | idle hi hf _ _ => exact same (by rw [hf]) fun d hd => Bool.noConfusion (hi _ hd)

/-- **Every open node below a root comes from the token of an inner node.** -/
theorem madeBy_of_open (ts : List Token) : ∀ q ∈ (reached ts).stack.items, q ≠ [] →
    MadeBy .innerNode ts ⟨(reached ts).forest.length - 1, q⟩ := by
  induction ts using List.reverseRecOn with
  | nil =>
    intro q hq
    cases hq
  | append_singleton ts t ih =>
    intro q hq hne
    rw [madeBy_concat, Creates]
    rw [reached_concat] at hq ⊢
    cases nodeStep_after (reached ts) ts.length t with
    | root d a _ _ hs _ =>
      rw [hs, List.mem_singleton] at hq
      exact absurd hq hne
    | child e path hi hp hf hs _ _ =>
      obtain ⟨u, hu⟩ := Forest.nodeAt?_ne_none_iff.mp (open_stands ts path hp)
      rw [hf, Forest.length_addChild]
      rcases hs q hq with hq | ⟨ho, rfl⟩
      · exact .inl (ih q hq hne)
      · right
        refine ⟨?_, ?_, ?_⟩
        · have hk := Token.isAtomOf_of_extension hi
          rwa [Extension.keyword, ho] at hk
        · rw [Forest.nextChild_of_subtreeAt hu]
          exact Forest.nodeAt?_child_of_le hu (Nat.le_refl _)
        · rw [Forest.nodeAt?_addChild hu, Forest.nextChild_of_subtreeAt hu]
          exact (if_pos rfl).trans_ne (Option.some_ne_none _)
    | drop e _ _ hs _ _ =>
      rw [hs] at hq
      cases hq
    | play events _ he =>
      have hp := samePlaces_attach ts.length t.name events (reached ts)
      rw [he, hp.stack] at hq
      rw [he, hp.length]
      exact .inl (ih q hq hne)
    | idle _ hf hs _ =>
      rw [hs] at hq
      rw [hf]
      exact .inl (ih q hq hne)

/-- **Nodes below a root have no time before normalization.** -/
theorem untimed_reached {ts : List Token} {p : Place} {n : Node}
    (h : (reached ts).forest.nodeAt? p = some n) (hp : p.path ≠ []) :
    n.duration = .zero ∧ n.offset = .zero := by
  rw [Forest.nodeAt?_eq_bind] at h
  obtain ⟨t, ht, hn⟩ := Option.bind_eq_some_iff.mp h
  have hg := grown_reached ts t (List.mem_of_getElem? ht)
  exact hg.holdsBelow (P := fun n => n.duration = .zero ∧ n.offset = .zero)
    (fun _ => ⟨rfl, rfl⟩) (fun _ _ h => h) p.path n hp hn

/-! ### Earlier trees -/

namespace Forest

variable {f g : Forest} {i : Nat}

theorem getElem?_settled (hi : i + 1 < f.length) : f.settled[i]? = (f[i]?).map Tree.bare := by
  rw [settled, bare, List.getElem?_map, List.getElem?_dropLast, if_pos (by omega)]

/-- A tree that no longer grows keeps its shape and its weights. -/
theorem map_beats_of_settled (h : f.settled <+: g.settled) (hi : i + 1 < f.length) :
    (g[i]?).map (Rose.map Node.beats) = (f[i]?).map (Rose.map Node.beats) := by
  have hl : ∀ f : Forest, f.settled.length = f.length - 1 := by
    intro f
    rw [settled, length_bare, List.length_dropLast]
  have hle := h.length_le
  rw [hl, hl] at hle
  have hbare : (g[i]?).map Tree.bare = (f[i]?).map Tree.bare := by
    obtain ⟨r, hr⟩ := h
    rw [← getElem?_settled hi, ← getElem?_settled (f := g) (by omega), ← hr,
      List.getElem?_append_left (by rw [hl]; omega)]
  have hbeats : (Rose.map Node.beats ∘ Tree.bare : Tree → Rose Int) = Rose.map Node.beats := by
    funext t
    exact Rose.map_map _ _ t
  rw [← hbeats, ← Option.map_map, hbare, Option.map_map]

end Forest

/-! ### The chain -/

/-- The open nodes behind some tokens: the latest root, a child of it, a child of that child and so
on, or none. -/
structure OpenChain (ts : List Token) (s : BuilderState) : Prop where
  /-- The outermost open node is the latest root. -/
  bottom : ∀ p, s.openPlaces.getLast? = some p → LatestRoot ts p
  /-- Every other open node is a child of the one around it. -/
  child : s.openPlaces.IsChain fun inner outer => inner.parent? = some outer
  /-- Every open node stands in the trees. -/
  stands : ∀ p ∈ s.openPlaces, s.forest.nodeAt? p ≠ none
  /-- An open node below the root comes from the token of an inner node and has no time yet. -/
  waiting : ∀ p ∈ s.openPlaces, p.path ≠ [] → MadeBy .innerNode ts p ∧
    ∃ n, s.forest.nodeAt? p = some n ∧ n.duration = .zero ∧ n.offset = .zero

/-- A state with the trees behind some tokens and a chain of their open nodes. -/
theorem openChain_of {ts : List Token} {s : BuilderState} (hf : s.forest = (reached ts).forest)
    (hc : s.stack.IsChain) (hsub : ∀ q ∈ s.stack.items, q ∈ (reached ts).stack.items) :
    OpenChain ts s := by
  have hstands : ∀ p ∈ s.openPlaces, s.forest.nodeAt? p ≠ none := by
    intro p hp
    obtain ⟨q, hq, rfl⟩ := List.mem_map.mp hp
    rw [hf]
    exact open_stands ts q (hsub q hq)
  refine ⟨fun p hp => ?_, ?_, hstands, fun p hp hne => ⟨?_, ?_⟩⟩
  · have hmem := List.mem_of_getLast? hp
    rcases hc with hz | ⟨q, hq⟩
    · rw [openPlaces, hz] at hp
      cases hp
    · rw [openPlaces, List.getLast?_map, hq, getLast?_items_chain, Option.map_some] at hp
      obtain rfl := Option.some.inj hp
      have hnode := hstands _ hmem
      rw [hf] at hnode ⊢
      refine latestRoot_reached ts fun hz => hnode ?_
      rw [hz]
      rfl
  · rcases hc with hz | ⟨q, hq⟩
    · rw [openPlaces_eq_nil_iff.mpr hz]
      exact .nil
    · rw [openPlaces, hq, List.isChain_map]
      refine (isChain_items_chain q).imp fun inner outer h => ?_
      obtain ⟨i, rfl⟩ := h
      simp [Place.parent?]
  · obtain ⟨q, hq, rfl⟩ := List.mem_map.mp hp
    rw [hf]
    exact madeBy_of_open ts q (hsub q hq) hne
  · obtain ⟨n, hn⟩ := Option.ne_none_iff_exists'.mp (hstands p hp)
    refine ⟨n, hn, ?_⟩
    rw [hf] at hn
    exact untimed_reached hn hne

/-- Where the token of a node below a root adds the node: below the innermost of the nodes that it
has left open, or nowhere. -/
def GrowsInside (s closed s' : BuilderState) (e : Extension) : Prop :=
  (closed.openPlaces = [] ∧ s'.openPlaces = [] ∧ s'.forest = s.forest) ∨
    ∃ p outer, closed.openPlaces.head? = some outer ∧ p.parent? = some outer ∧
      p.tree + 1 = s.forest.length ∧ p.depth = closed.openPlaces.length ∧
      s'.openPlaces = (if e.opens then p :: closed.openPlaces else closed.openPlaces) ∧
      s'.forest.length = s.forest.length ∧
      ∀ q, s'.forest.nodeAt? q = if q = p then some { beats := e.beats } else s.forest.nodeAt? q

theorem BuilderState.Adds.growsInside {s closed s' : BuilderState} {e : Extension}
    (h : Adds s closed s' e) (hf : closed.forest = s.forest)
    (ho : ∀ p ∈ closed.openPlaces, s.forest.nodeAt? p ≠ none) : GrowsInside s closed s' e := by
  cases h with
  | lost hz hs hf' =>
    exact .inl ⟨openPlaces_eq_nil_iff.mpr hz, openPlaces_eq_nil_iff.mpr (by rw [hs, hz]), hf'⟩
  | child path i hc hs hl hn =>
    have hhead : closed.openPlaces.head? = some ⟨s.forest.length - 1, path⟩ := by
      have ht : (chain path).items.head? = some path := top?_chain path
      rw [openPlaces, List.head?_map, hc, ht, hf]
      rfl
    have hpos : 0 < s.forest.length := by
      by_contra hz
      have hnil : s.forest = [] := List.eq_nil_of_length_eq_zero (by omega)
      refine ho _ (List.mem_of_head? hhead) ?_
      rw [hnil]
      rfl
    refine .inr ⟨⟨s.forest.length - 1, path ++ [i]⟩, _, hhead, ?_, ?_, ?_, ?_, hl, hn⟩
    · simp [Place.parent?]
    · show s.forest.length - 1 + 1 = s.forest.length
      omega
    · have hz : (chain path).items.length = path.length + 1 := size_chain path
      rw [openPlaces, List.length_map, hc, hz, Place.depth, List.length_append,
        List.length_singleton]
    · rw [openPlaces, openPlaces, hs, hl, hc, hf]
      cases e.opens with
      | true =>
        rw [if_pos rfl, if_pos rfl, items_chain_concat]
        rfl
      | false => rfl

/-- **The stack is a live chain of parents.** In every state that a parse comes through, the open
nodes are the latest root, a child of it, a child of that child and so on, and they still are when a
token has closed some of them. A node is added below the innermost of them only, as deep as nodes
are open, and trees before the latest one keep their shape and their weights. -/
theorem open_chain {strict : Bool} {ts : List Token} {s : BuilderState}
    (h : run strict {} 0 ts = .ok s) :
    OpenChain ts s ∧
      (∀ t e s', t.extension? = some e → s.step strict ts.length t = .ok s' →
        OpenChain ts (s.closeLevels ts.length e.level.outer) ∧
          GrowsInside s (s.closeLevels ts.length e.level.outer) s' e) ∧
      ∀ us s', run strict s ts.length us = .ok s' → ∀ i, i + 1 < s.forest.length →
        (s'.forest[i]?).map (Rose.map Node.beats) = (s.forest[i]?).map (Rose.map Node.beats) := by
  obtain ⟨-, rfl⟩ : _ ∧ reached ts = s := run_lenient_eq_ok.mp (run_lenient_of_run h)
  have hchain := isChain_reached ts
  refine ⟨openChain_of rfl hchain fun _ hq => hq, fun t e s' he hs => ?_, fun us s' hr i hi => ?_⟩
  · obtain ⟨hf, -, hsub, -⟩ := closeLevels_spec ts.length e.level.outer (reached ts)
    have hclosed := openChain_of hf (isChain_closeLevels hchain ts.length e.level.outer) hsub
    obtain ⟨-, rfl⟩ := step_lenient_eq_ok.mp (step_lenient_of_step hs)
    rw [after_of_instruction? (instruction?_of_extension? he)]
    exact ⟨hclosed, (adds_perform hchain (open_stands ts) ts.length t.name e).growsInside hf
      (hf ▸ hclosed.stands)⟩
  · obtain ⟨-, rfl⟩ := run_lenient_eq_ok.mp (run_lenient_of_run hr)
    exact Forest.map_beats_of_settled (extends_afterAll (reached ts) ts.length us).trees hi

open Token in
/-- A tree, and behind it one with three open nodes. -/
def openStream : List Token :=
  [root (.ofNat 4), leaf 1 (.below 0), root (.ofNat 3), inner 2 (.below 0), inner 1 (.below 1)]

theorem open_chain_openStream :
    run false {} 0 openStream = .ok (reached openStream) ∧
      (reached openStream).openPlaces = [⟨1, [0, 0]⟩, ⟨1, [0]⟩, ⟨1, []⟩] ∧
      OpenChain openStream (reached openStream) ∧
      GrowsInside (reached openStream) ((reached openStream).closeLevels 5 0)
        ((reached openStream).after 5 (.leaf 1 (.below 0))) ⟨false, 1, .below 0⟩ ∧
      ((reached (openStream ++ [.leaf 1 (.below 0)])).forest[0]?).map (Rose.map Node.beats) =
        ((reached openStream).forest[0]?).map (Rose.map Node.beats) := by
  have hrun : run false {} 0 openStream = .ok (reached openStream) :=
    run_lenient_eq_ok.mpr ⟨by decide +kernel, rfl⟩
  have hleaf : ∀ s index, run false s index [.leaf 1 (.below 0)] =
      .ok (s.afterAll index [.leaf 1 (.below 0)]) :=
    fun s index => run_lenient_eq_ok.mpr ⟨by decide +kernel, rfl⟩
  obtain ⟨hchain, hgrows, hbeats⟩ := open_chain hrun
  refine ⟨hrun, by decide +kernel, hchain, ?_, ?_⟩
  · exact (hgrows (.leaf 1 (.below 0)) ⟨false, 1, .below 0⟩ _ (extension?_leaf 1 (.below 0))
      (step_lenient_eq_ok.mpr ⟨by decide +kernel, rfl⟩)).2
  · rw [reached_append]
    exact hbeats _ _ (hleaf _ _) 0 (by decide +kernel)

end RhythmTree
