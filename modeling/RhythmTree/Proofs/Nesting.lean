import Mathlib.Data.List.Infix
import RhythmTree.Proofs.Outline
import RhythmTree.Proofs.Plain

/-!
# Nesting

A forest written as tokens comes back from the builder. Every group of the forest is a root with the
trees below it, written in pre-order: a node with children as an inner node, any other node as a
leaf, each at the level of its depth.

* `Group.tokens`: the tokens of a group.
* `Ready`: what holds of an outline when a child of a node is to be written next. Either the node
  has just been opened, or the latest node stands below it and as deep as the open nodes reach.
* `grows_tokens`: **writing a tree adds it below the node, and the next sibling can be written.**
* `nesting_round_trip`: the forest comes back, whatever other tokens stand in between.
-/

namespace RhythmTree

open BuilderState

/-! ### Forests as tokens -/

namespace Rose

mutual

/-- The tokens of a tree of weights below a number of levels, in pre-order. -/
def tokens (depth : Nat) : Rose Int → List Token
  | node beats [] => [.leaf beats (.below depth)]
  | node beats (t :: ts) =>
    .inner beats (.below depth) :: tokensAll (depth + 1) (t :: ts)

/-- The tokens of siblings, one tree after the other. -/
def tokensAll (depth : Nat) : List (Rose Int) → List Token
  | [] => []
  | t :: ts => tokens depth t ++ tokensAll depth ts

end

end Rose

/-- A duration and how it is divided. -/
structure Group where
  duration : Duration
  /-- The trees of weights below the root. -/
  trees : List (Rose Int)

/-- The tokens of a group: its root and the nodes below it. -/
def Group.tokens (g : Group) : List Token := .root g.duration :: Rose.tokensAll 0 g.trees

/-! ### Chains of open nodes -/

/-- The stack in which a node and all nodes above it are open. -/
def chain (p : Address) : Stack Address := .ofList p.inits

theorem chain_concat (p : Address) (i : Nat) : chain (p ++ [i]) = (chain p).push (p ++ [i]) := by
  simp [chain, Stack.ofList, Stack.push, List.inits_append]

@[simp] theorem top?_chain (p : Address) : (chain p).top? = some p := by
  rcases List.eq_nil_or_concat p with rfl | ⟨q, i, rfl⟩
  · rfl
  · rw [List.concat_eq_append, chain_concat, Stack.top?_push]

@[simp] theorem size_chain (p : Address) : (chain p).size = p.length + 1 := by
  simp [chain, Stack.ofList, Stack.size]

theorem closable_natCast {s : Stack Address} {n : Nat} (h : n ≤ s.size) : s.closable n = n := by
  rw [Stack.closable, Int.toNat_natCast, Nat.min_eq_left h]

/-- Closing the nodes below a node leaves the node and those above it. -/
theorem pop_chain (p r : Address) : (chain (p ++ r)).pop (r.length : Nat) = chain p := by
  have hs : r.length ≤ (chain (p ++ r)).size := by
    rw [size_chain, List.length_append]
    omega
  rw [Stack.pop, closable_natCast hs]
  clear hs
  induction r using List.reverseRecOn with
  | nil => rw [List.append_nil]; rfl
  | append_singleton r i ih =>
    rw [← List.append_assoc, chain_concat, List.length_append, List.length_singleton, Stack.push,
      List.drop_succ_cons]
    exact ih

/-- Closing as many levels as there are nodes below a node loses nothing. -/
theorem closeLevels_chain {o : Outline} {p r : Address} {depth : Nat}
    (hs : o.stack = chain (p ++ r)) (hr : o.depth - depth = r.length) :
    o.closeLevels depth = { o with stack := chain p } := by
  rw [Outline.closeLevels]
  split
  · have hc : (chain (p ++ r)).closable (r.length : Nat) = r.length :=
      closable_natCast (by rw [size_chain, List.length_append]; omega)
    simp only [hr, hs, pop_chain, hc, Nat.lt_irrefl, if_false, List.append_nil]
  · next hn =>
    obtain rfl : r = [] := List.eq_nil_of_length_eq_zero (by omega)
    rw [List.append_nil] at hs
    rw [← hs]

/-! ### Ready for the next child -/

/-- A node has just been opened. -/
def Opened (o : Outline) (p : Address) : Prop := o.stack = chain p ∧ o.depth < p.length

/-- The open nodes reach down from a node to the depth of the latest node. -/
def Settled (o : Outline) (p : Address) : Prop :=
  ∃ q, p <+: q ∧ o.stack = chain q ∧ o.depth = q.length

/-- A child of a node can be written. -/
def Ready (o : Outline) (p : Address) : Prop := Opened o p ∨ Settled o p

theorem Settled.of_append {o : Outline} {p r : Address} (h : Settled o (p ++ r)) : Settled o p := by
  obtain ⟨q, hq, hs⟩ := h
  exact ⟨q, (List.prefix_append p r).trans hq, hs⟩

/-- A child of a node closes what has been left open below the node, and nothing gets lost. -/
theorem Ready.closeLevels {o : Outline} {p : Address} (h : Ready o p) :
    o.closeLevels p.length = { o with stack := chain p } := by
  rcases h with ⟨hs, hd⟩ | ⟨q, ⟨r, rfl⟩, hs, hd⟩
  · rw [Outline.closeLevels, if_neg (by omega), ← hs]
  · rw [List.length_append] at hd
    exact closeLevels_chain hs (by omega)

/-! ### Growing -/

/-- An outline differs from another one by trees below a node of the latest tree. -/
structure Grows (o o' : Outline) (ts : List (Rose Int)) (p : Address) : Prop where
  durations : o'.durations = o.durations
  losses : o'.losses = o.losses
  trees : o'.trees = o.trees.modify (o.trees.length - 1) (Rose.modifyAt (Rose.graft ts) p)

namespace Grows

variable {o o' o'' : Outline} {ts us : List (Rose Int)} {p : Address}

theorem refl (o : Outline) (p : Address) : Grows o o [] p := by
  refine ⟨rfl, rfl, ?_⟩
  have hi : o.trees.modify (o.trees.length - 1) (Rose.modifyAt (Rose.graft []) p) =
      o.trees.modify (o.trees.length - 1) id :=
    Rose.modify_congr fun t _ => Rose.modifyAt_eq_self Rose.graft_nil p t
  rw [hi, List.modify_id]

/-- Siblings that are written one after the other. -/
theorem append (h : Grows o o' ts p) (h' : Grows o' o'' us p) : Grows o o'' (ts ++ us) p := by
  refine ⟨h'.durations.trans h.durations, h'.losses.trans h.losses, ?_⟩
  rw [h'.trees, h.trees, List.length_modify, List.modify_modify_eq]
  refine Rose.modify_congr fun t _ => ?_
  rw [Function.comp_apply, Rose.modifyAt_modifyAt]
  exact Rose.modifyAt_congr fun u _ => Rose.graft_graft ts us u

/-- The children of a node that has just been written. -/
theorem nest {beats : Int} (h : Grows o o' [.node beats []] p)
    (h' : Grows o' o'' ts (o.nextChild p)) : Grows o o'' [.node beats ts] p := by
  refine ⟨h'.durations.trans h.durations, h'.losses.trans h.losses, ?_⟩
  rw [h'.trees, h.trees, List.length_modify, List.modify_modify_eq]
  refine Rose.modify_congr fun t ht => ?_
  rw [Function.comp_apply, Outline.nextChild, ht, Option.bind_some, Rose.modifyAt_append,
    Rose.modifyAt_modifyAt]
  refine Rose.modifyAt_congr fun u hu => ?_
  rw [Function.comp_apply, hu, Option.elim_some, Rose.modifyAt_last_graft]
  rfl

end Grows

/-- A leaf is added below a node that is ready for it, and the node is ready for another child. -/
theorem grows_addNode_false {o : Outline} {p : Address} (h : Ready o p) (beats : Int) :
    Grows o (o.addNode false beats p.length) [.node beats []] p ∧
      Settled (o.addNode false beats p.length) p := by
  rw [Outline.addNode, h.closeLevels, Outline.attachChild_of_some (top?_chain p),
    Rose.addLeaf_eq_graft]
  exact ⟨⟨rfl, rfl, rfl⟩, p, List.prefix_rfl, rfl, rfl⟩

/-- An inner node is added below a node that is ready for it, and is open then. -/
theorem grows_addNode_true {o : Outline} {p : Address} (h : Ready o p) (beats : Int) :
    Grows o (o.addNode true beats p.length) [.node beats []] p ∧
      Opened (o.addNode true beats p.length) (o.nextChild p) := by
  rw [Outline.addNode, h.closeLevels, Outline.attachChild_of_some (top?_chain p),
    Rose.addLeaf_eq_graft]
  refine ⟨⟨rfl, rfl, rfl⟩, ?_, ?_⟩
  · exact (chain_concat p _).symm
  · show p.length < (o.nextChild p).length
    rw [Outline.nextChild, List.length_append, List.length_singleton]
    omega

/-- Siblings that each are added below a node are added below it one after the other. -/
theorem grows_tokensAll {ts : List (Rose Int)} {p : Address}
    (h : ∀ t ∈ ts, ∀ o, Ready o p →
      Grows o ((t.tokens p.length).foldl Outline.after o) [t] p ∧
        Settled ((t.tokens p.length).foldl Outline.after o) p) {o : Outline} (ho : Settled o p) :
    Grows o ((Rose.tokensAll p.length ts).foldl Outline.after o) ts p ∧
      Settled ((Rose.tokensAll p.length ts).foldl Outline.after o) p := by
  induction ts generalizing o with
  | nil => exact ⟨.refl o p, ho⟩
  | cons t rest ih =>
    obtain ⟨hg, hs⟩ := h t (by simp) o (.inr ho)
    obtain ⟨hg', hs'⟩ := ih (fun u hu => h u (by simp [hu])) hs
    rw [Rose.tokensAll, List.foldl_append]
    exact ⟨hg.append hg', hs'⟩

/-- **Writing a tree adds it below a node that is ready for it**, and the next sibling can be
written. -/
theorem grows_tokens (t : Rose Int) {p : Address} {o : Outline} (h : Ready o p) :
    Grows o ((t.tokens p.length).foldl Outline.after o) [t] p ∧
      Settled ((t.tokens p.length).foldl Outline.after o) p := by
  induction t using Rose.induction generalizing p o with
  | node beats ts ih =>
    cases ts with
    | nil =>
      have ha : ([Token.leaf beats (.below p.length)]).foldl
          Outline.after o = o.addNode false beats p.length := by
        simp only [List.foldl_cons, List.foldl_nil, Outline.after, Token.instruction?_leaf,
          Outline.perform, Level.outer_below]
      rw [Rose.tokens, ha]
      exact grows_addNode_false h beats
    | cons c cs =>
      have ha : o.after (Token.inner beats (.below p.length)) =
          o.addNode true beats p.length := by
        simp only [Outline.after, Token.instruction?_inner, Outline.perform, Level.outer_below]
      rw [Rose.tokens, List.foldl_cons, ha, Rose.tokensAll, List.foldl_append]
      obtain ⟨hg, ho⟩ := grows_addNode_true h beats
      have hl : (o.nextChild p).length = p.length + 1 := by
        rw [Outline.nextChild, List.length_append, List.length_singleton]
      -- the first child is written while its parent has just been opened, the others behind it
      rw [← hl]
      obtain ⟨hc, hs⟩ := ih c (by simp) (.inl ho)
      obtain ⟨hcs, hs'⟩ := grows_tokensAll
        (fun u hu _ hr => ih u (List.mem_cons_of_mem c hu) hr) hs
      exact ⟨hg.nest (hc.append hcs), hs'.of_append⟩

/-- A group is added behind the other trees. -/
theorem foldl_tokens (g : Group) (o : Outline) :
    (g.tokens.foldl Outline.after o).durations = o.durations ++ [g.duration] ∧
      (g.tokens.foldl Outline.after o).trees = o.trees ++ [.node 1 g.trees] ∧
      (g.tokens.foldl Outline.after o).losses = o.losses := by
  have ha : o.after (.root g.duration) = o.addTree g.duration := by
    simp only [Outline.after, Token.instruction?_root]
    rfl
  have hs : Settled (o.addTree g.duration) [] := ⟨[], List.prefix_rfl, rfl, rfl⟩
  obtain ⟨hg, -⟩ := grows_tokensAll (fun t (_ : t ∈ g.trees) _ hr => grows_tokens t hr) hs
  rw [Group.tokens, List.foldl_cons, ha]
  refine ⟨hg.durations, hg.trees.trans ?_, hg.losses⟩
  show (o.trees ++ [Rose.node 1 []]).modify ((o.trees ++ [Rose.node 1 []]).length - 1) _ = _
  rw [List.length_append, List.length_singleton, Nat.add_sub_cancel, Rose.modify_concat]
  rfl

theorem foldl_groups (groups : List Group) (o : Outline) :
    ((groups.flatMap Group.tokens).foldl Outline.after o).durations =
        o.durations ++ groups.map Group.duration ∧
      ((groups.flatMap Group.tokens).foldl Outline.after o).trees =
        o.trees ++ groups.map (fun g => .node 1 g.trees) ∧
      ((groups.flatMap Group.tokens).foldl Outline.after o).losses = o.losses := by
  induction groups generalizing o with
  | nil => simp
  | cons g rest ih =>
    obtain ⟨hd, ht, hl⟩ := foldl_tokens g o
    obtain ⟨hd', ht', hl'⟩ := ih (g.tokens.foldl Outline.after o)
    rw [List.flatMap_cons, List.foldl_append]
    refine ⟨?_, ?_, hl'.trans hl⟩
    · rw [hd', hd, List.append_assoc]
      rfl
    · rw [ht', ht, List.append_assoc]
      rfl

/-! ### The round trip -/

theorem Token.isWellFormed_of_isNode {t : Token} (h : t.isNode = true) : t.isWellFormed = true := by
  unfold isNode at h
  cases hi : t.instruction? with
  | none =>
    rw [hi] at h
    cases h
  | some i => rw [isWellFormed, ofToken_of_instruction? hi]

/-- **A forest comes back from its tokens.** Whatever well-formed tokens stand between the tokens of
some groups, the stream parses, the trees of the score have the durations and the weights of the
groups, node by node, and no report of an underflow or of a dropped node is made. -/
theorem nesting_round_trip {groups : List Group} {ts : List Token}
    (hn : ts.filter Token.isNode = groups.flatMap Group.tokens)
    (hw : ∀ t ∈ ts, t.isNode = false → t.isWellFormed = true) :
    ∃ score, build false ts = .ok score ∧
      score.forest.map (fun t => t.label.duration) = groups.map Group.duration ∧
      score.forest.map (Rose.map Node.beats) = groups.map (fun g => .node 1 g.trees) ∧
      Text.ofString "STACK_UNDERFLOW" ∉ score.report.codes ∧
      Text.ofString "NO_OPEN_CONTAINER" ∉ score.report.codes := by
  have hall : ∀ t ∈ ts, t.isWellFormed = true := by
    intro t ht
    cases h : t.isNode with
    | true => exact Token.isWellFormed_of_isNode h
    | false => exact hw t ht h
  have hb : build false ts = .ok (reached ts).toScore := build_lenient_eq_ok.mpr ⟨hall, rfl⟩
  obtain ⟨hd, ht, hl⟩ := foldl_groups groups {}
  rw [← hn, ← outline_reached] at hd ht hl
  refine ⟨_, hb, ?_, ?_, (losses_eq_nil_iff hb).mp hl⟩
  · rw [map_duration_build hb, hd]
    rfl
  · rw [map_beats_build hb, ht]
    rfl

/-- Two groups, the first of which is divided at two depths. -/
def twoGroups : List Group :=
  [⟨.ofNat 4, [.node 2 [.node 1 [], .node (-1) []], .node 3 []]⟩, ⟨.ofNat 1, []⟩]

open Token in
/-- The tokens of these groups with a measure and a switch of the mode in between. -/
def scattered : List Token :=
  [bar, root (.ofNat 4), inner 2 (.below 0), leaf 1 (.below 1), switch .decrement,
    leaf (-1) (.below 1), leaf 3 (.below 0), bar, root (.ofNat 1)]

theorem nesting_round_trip_twoGroups :
    ∃ score, build false scattered = .ok score ∧
      score.forest.map (fun t => t.label.duration) = [.ofNat 4, .ofNat 1] ∧
      score.forest.map (Rose.map Node.beats) =
        [.node 1 [.node 2 [.node 1 [], .node (-1) []], .node 3 []], .node 1 []] ∧
      Text.ofString "STACK_UNDERFLOW" ∉ score.report.codes ∧
      Text.ofString "NO_OPEN_CONTAINER" ∉ score.report.codes := by
  have hn : scattered.filter Token.isNode = twoGroups.flatMap Group.tokens := by
    simp [scattered, twoGroups, Group.tokens, Rose.tokensAll, Rose.tokens, Token.isNode]
  have hw : ∀ t ∈ scattered, t.isNode = false → t.isWellFormed = true := by decide +kernel
  exact nesting_round_trip hn hw

end RhythmTree
