import Mathlib.Data.List.DropRight
import RhythmTree.Proofs.Addresses
import RhythmTree.Proofs.Nesting

/-!
# Levels and depths

The level of a node token is meant to be the depth of its node. A builder compares it with the level
of the node before, and only to see how many nodes to close. So it takes a level that skips others
for the next one, and an inner node without children stays open for its next sibling.

* `Extension`: what a token says about a node below a root.
* `risen`, `opened`: by how many levels the tokens of the latest tree have gone up, one step with
  another, and how many nodes they have opened.
* `Standing`: as long as nothing is lost, the open nodes are a node and those above it, and the
  depth of that node makes up for the difference between the two numbers.
* `depth_add_risen`: **a node stands at its level if as many levels have been risen as nodes have
  been opened, and off it by the difference.**
* `not_forall_depth_eq_level`: a report without losses does not mean that nodes stand at their
  levels.
-/

namespace RhythmTree

open BuilderState

/-! ### Tokens of nodes below a root -/

/-- What a token says about a node below a root. -/
structure Extension where
  /-- Later nodes are attached to the node. -/
  opens : Bool
  beats : Int
  level : Level

/-- What a token says about the node below a root that it adds. -/
def Token.extension? (t : Token) : Option Extension :=
  match t.instruction? with
  | some (.addInner beats level) => some ⟨true, beats, level⟩
  | some (.addLeaf beats level) => some ⟨false, beats, level⟩
  | _ => none

/-- What the tokens of the latest tree say about its nodes. -/
def latestExtensions (ts : List Token) : List Extension :=
  (ts.rtakeWhile fun t => !t.startsTree).filterMap Token.extension?

theorem latestExtensions_concat (ts : List Token) (t : Token) :
    latestExtensions (ts ++ [t]) =
      if t.startsTree then [] else latestExtensions ts ++ t.extension?.toList := by
  rw [latestExtensions, List.rtakeWhile_concat]
  cases t.startsTree with
  | true => rfl
  | false =>
    show (_ ++ [t]).filterMap Token.extension? = latestExtensions ts ++ t.extension?.toList
    rw [List.filterMap_append]
    cases he : t.extension? with
    | none => rw [List.filterMap_cons_none he]; rfl
    | some e => rw [List.filterMap_cons_some he]; rfl

/-- How far a row of numbers goes up from a number on, without what it goes down. -/
def rise : Nat → List Nat → Nat
  | _, [] => 0
  | n, m :: rest => (m - n) + rise m rest

theorem rise_concat (n m : Nat) (ns : List Nat) :
    rise n (ns ++ [m]) = rise n ns + (m - ns.getLast?.getD n) := by
  induction ns generalizing n with
  | nil => simp [rise]
  | cons k rest ih =>
    rw [List.cons_append, rise, rise, ih, List.getLast?_cons, Nat.add_assoc]
    rfl

/-- How many levels are around each node of some extensions. -/
def outerLevels (es : List Extension) : List Nat := es.map fun e => e.level.outer

/-- By how many levels some extensions go up, beginning at the children of a root. -/
def risen (es : List Extension) : Nat := rise 0 (outerLevels es)

/-- How many nodes some extensions open. -/
def opened (es : List Extension) : Nat := es.countP Extension.opens

theorem risen_concat (es : List Extension) (e : Extension) :
    risen (es ++ [e]) = risen es + (e.level.outer - (outerLevels es).getLast?.getD 0) := by
  rw [risen, outerLevels, List.map_append, List.map_singleton, rise_concat]
  rfl

theorem opened_concat (es : List Extension) (e : Extension) :
    opened (es ++ [e]) = opened es + if e.opens then 1 else 0 := by
  rw [opened, List.countP_append, List.countP_singleton]
  rfl

/-! ### What a token does to an outline -/

namespace Outline

/-- Adds the node of an extension. -/
def extend (e : Extension) (o : Outline) : Outline := o.addNode e.opens e.beats e.level.outer

/-- What a token does to an outline. -/
inductive Step (o : Outline) (t : Token) : Prop
  /-- It adds a tree. -/
  | tree (d : Duration) (starts : t.startsTree = true) (eq : o.after t = o.addTree d)
  /-- It adds a node below a root. -/
  | node (e : Extension) (starts : t.startsTree = false) (extension : t.extension? = some e)
      (eq : o.after t = o.extend e)
  /-- It leaves the outline as it is. -/
  | idle (starts : t.startsTree = false) (extension : t.extension? = none) (eq : o.after t = o)

/-- Every token takes one of these steps. -/
theorem step_after (o : Outline) (t : Token) : Step o t := by
  cases hi : t.instruction? with
  | none =>
    refine .idle ?_ ?_ ?_
    · simp [Token.startsTree, Token.duration?, hi]
    · simp [Token.extension?, hi]
    · simp [after, hi]
  | some i =>
    have ha : o.after t = o.perform i := by simp [after, hi]
    cases i with
    | addRoot d => exact .tree d (by simp [Token.startsTree, Token.duration?, hi]) ha
    | addInner beats level =>
      exact .node ⟨true, beats, level⟩ (by simp [Token.startsTree, Token.duration?, hi])
        (by simp [Token.extension?, hi]) ha
    | addLeaf beats level =>
      exact .node ⟨false, beats, level⟩ (by simp [Token.startsTree, Token.duration?, hi])
        (by simp [Token.extension?, hi]) ha
    | _ =>
      exact .idle (by simp [Token.startsTree, Token.duration?, hi])
        (by simp [Token.extension?, hi]) ha

theorem after_of_extension? {t : Token} {e : Extension} (h : t.extension? = some e) (o : Outline) :
    t.startsTree = false ∧ o.after t = o.extend e := by
  cases step_after o t with
  | tree d hs ha =>
    obtain ⟨d', hi⟩ := Token.exists_instruction?_of_startsTree hs
    rw [Token.extension?, hi] at h
    cases h
  | node e' hs he ha =>
    obtain rfl : e' = e := Option.some.inj (he.symm.trans h)
    exact ⟨hs, ha⟩
  | idle hs he ha =>
    rw [he] at h
    cases h

@[simp] theorem trees_closeLevels (depth : Nat) (o : Outline) :
    (o.closeLevels depth).trees = o.trees := by
  unfold closeLevels
  split <;> rfl

theorem losses_isPrefix_closeLevels (depth : Nat) (o : Outline) :
    o.losses <+: (o.closeLevels depth).losses := by
  unfold closeLevels
  split
  · exact List.prefix_append _ _
  · exact List.prefix_rfl

theorem losses_isPrefix_attachChild (opens : Bool) (beats : Int) (depth : Nat) (o : Outline) :
    o.losses <+: (o.attachChild opens beats depth).losses := by
  unfold attachChild
  split
  · exact List.prefix_append _ _
  · exact List.prefix_rfl

/-- What is lost stays lost. -/
theorem losses_isPrefix_after (o : Outline) (t : Token) : o.losses <+: (o.after t).losses := by
  cases step_after o t with
  | tree d _ ha => rw [ha]; exact List.prefix_rfl
  | node e _ _ ha =>
    rw [ha]
    exact (losses_isPrefix_closeLevels _ o).trans (losses_isPrefix_attachChild _ _ _ _)
  | idle _ _ ha => rw [ha]

/-! ### Weights at places -/

/-- The weight of the node at a place. -/
def beatsAt (o : Outline) (p : Place) : Option Int :=
  o.trees[p.tree]?.bind fun t => t.labelAt p.path

/-- A new leaf takes one place, and no other weight changes. -/
theorem beatsAt_addLeaf {o o' : Outline} {i : Nat} {t u : Rose Int} {p : Address} {beats : Int}
    (ht : o.trees[i]? = some t) (hu : t.subtreeAt p = some u)
    (ho : o'.trees = o.trees.modify i (Rose.modifyAt (Rose.addLeaf beats) p)) (q : Place) :
    o'.beatsAt q =
      if q = ⟨i, p ++ [u.children.length]⟩ then some beats else o.beatsAt q := by
  obtain ⟨j, q⟩ := q
  show (o'.trees[j]?.bind fun t => t.labelAt q) =
    if _ then some beats else o.trees[j]?.bind fun t => t.labelAt q
  by_cases hij : i = j
  · subst hij
    rw [ho, List.getElem?_modify_eq, ht]
    simp only [Place.mk.injEq, true_and]
    exact Rose.labelAt_modifyAt_addLeaf hu beats q
  · rw [ho, List.getElem?_modify_ne _ _ hij, if_neg fun he => hij (congrArg Place.tree he).symm]

/-- A node keeps its weight while a tree grows. -/
theorem labelAt_of_addLeaf {t : Rose Int} {q : Address} {b : Int} (h : t.labelAt q = some b)
    (beats : Int) (p : Address) :
    (Rose.modifyAt (Rose.addLeaf beats) p t).labelAt q = some b := by
  refine @Rose.rel_labelAt_modifyAt _ _ (fun x y => x = some b → y = some b) (fun _ hx => hx)
    (fun u r hr => ?_) p q t h
  have hne : r ≠ [u.children.length] := by
    rintro rfl
    rw [Rose.labelAt_cons, List.getElem?_eq_none (Nat.le_refl _)] at hr
    cases hr
  rw [Rose.labelAt_addLeaf, if_neg hne]
  exact hr

/-- **A node keeps its place and its weight.** -/
theorem beatsAt_after {o : Outline} {p : Place} {b : Int} (h : o.beatsAt p = some b) (t : Token) :
    (o.after t).beatsAt p = some b := by
  obtain ⟨u, hu, hb⟩ := Option.bind_eq_some_iff.mp h
  cases step_after o t with
  | tree d _ ha =>
    obtain ⟨hi, -⟩ := List.getElem?_eq_some_iff.mp hu
    have ht : (o.after t).trees[p.tree]? = some u := by
      rw [ha, addTree, List.getElem?_append_left hi, hu]
    rw [beatsAt, ht]
    exact hb
  | node e _ _ ha =>
    rw [ha, extend, addNode, beatsAt, attachChild]
    split
    · rw [trees_closeLevels, hu]
      exact hb
    · rw [trees_closeLevels, List.getElem?_modify, hu]
      split
      · exact labelAt_of_addLeaf hb e.beats _
      · exact hb
  | idle _ _ ha => rw [ha]; exact h

end Outline

/-! ### Where the open nodes are -/

/-- Closing some open nodes leaves a node above them, or it leaves none. -/
theorem top?_closeLevels_chain {o : Outline} {q : Address} (hs : o.stack = chain q) (depth : Nat) :
    (o.closeLevels depth).stack.top? = none ∨
      ∃ p r, q = p ++ r ∧ r.length = o.depth - depth ∧
        o.closeLevels depth = { o with stack := chain p } := by
  by_cases hq : o.depth - depth ≤ q.length
  · right
    have hsplit := List.take_append_drop (q.length - (o.depth - depth)) q
    have hl : (q.drop (q.length - (o.depth - depth))).length = o.depth - depth := by
      rw [List.length_drop]
      omega
    rw [← hsplit] at hs
    exact ⟨_, _, hsplit.symm, hl, closeLevels_chain hs hl.symm⟩
  · left
    have hn : (chain q).closable (o.depth - depth : Nat) = (chain q).items.length := by
      have hz : (chain q).items.length = q.length + 1 := size_chain q
      rw [Stack.closable, Int.toNat_natCast, Stack.size]
      omega
    rw [Outline.closeLevels, if_pos (by omega)]
    simp only [hs, Stack.pop, hn, List.drop_length]
    rfl

/-- **Where the next node goes as long as nothing is lost.** The open nodes are a node of the latest
tree and those above it. The depth of that node falls short of the depth of the latest node by the
levels that have been risen, and exceeds it by the nodes that have been opened. -/
structure Standing (o : Outline) (es : List Extension) (q : Address) : Prop where
  stack : o.stack = chain q
  stands : ∃ beats, o.beatsAt ⟨o.trees.length - 1, q⟩ = some beats
  depth : o.depth = (outerLevels es).getLast?.getD 0
  balance : q.length + risen es = o.depth + opened es

theorem standing_addTree (d : Duration) (o : Outline) : Standing (o.addTree d) [] [] := by
  refine ⟨rfl, ⟨1, ?_⟩, rfl, rfl⟩
  show ((o.trees ++ [Rose.node 1 []])[(o.trees ++ [Rose.node 1 []]).length - 1]?.bind
    fun t => t.labelAt []) = some 1
  rw [List.length_append, List.length_singleton, Nat.add_sub_cancel, List.getElem?_concat_length]
  rfl

theorem losses_ne_nil_of_top?_eq_none {o : Outline} {e : Extension}
    (h : (o.closeLevels e.level.outer).stack.top? = none) : (o.extend e).losses ≠ [] := by
  rw [Outline.extend, Outline.addNode, Outline.attachChild_of_none h]
  simp

theorem losses_ne_nil_of_stack_eq_empty {o : Outline} (h : o.stack = .empty) (e : Extension) :
    (o.extend e).losses ≠ [] := by
  apply losses_ne_nil_of_top?_eq_none
  unfold Outline.closeLevels
  split <;> simp [h, Stack.top?, Stack.pop, Stack.empty]

/-- A node that is not lost goes below a node of the latest tree, and the balance tells how deep. -/
theorem Standing.extend {o : Outline} {es : List Extension} {q : Address} (h : Standing o es q)
    {e : Extension} (hl : (o.extend e).losses = []) :
    ∃ p t u, o.trees[o.trees.length - 1]? = some t ∧ t.subtreeAt p = some u ∧
      p.length + risen (es ++ [e]) = e.level.outer + opened es ∧
      (o.extend e).trees =
        o.trees.modify (o.trees.length - 1) (Rose.modifyAt (Rose.addLeaf e.beats) p) ∧
      Standing (o.extend e) (es ++ [e]) (if e.opens then o.nextChild p else p) := by
  rcases top?_closeLevels_chain h.stack e.level.outer with hn | ⟨p, r, rfl, hr, hc⟩
  · exact absurd hl (losses_ne_nil_of_top?_eq_none hn)
  obtain ⟨beats, hbeats⟩ := h.stands
  obtain ⟨t, ht, hq⟩ := Option.bind_eq_some_iff.mp hbeats
  obtain ⟨w, hw, -⟩ := Option.map_eq_some_iff.mp hq
  obtain ⟨u, hu, -⟩ := Rose.exists_subtreeAt_of_append hw
  have he : o.extend e = { o with
      stack := if e.opens then chain (o.nextChild p) else chain p
      depth := e.level.outer
      trees := o.trees.modify (o.trees.length - 1)
        (Rose.modifyAt (Rose.addLeaf e.beats) p) } := by
    have hpush : chain (o.nextChild p) = (chain p).push (o.nextChild p) := chain_concat p _
    rw [Outline.extend, Outline.addNode, hc, Outline.attachChild_of_some (top?_chain p), hpush]
    rfl
  have hb := h.balance
  have hd := h.depth
  rw [List.length_append] at hb
  have hrise := risen_concat es e
  have hp : p.length + risen (es ++ [e]) = e.level.outer + opened es := by
    omega
  refine ⟨p, t, u, ht, hu, hp, by rw [he], ?_⟩
  have hlast : (outerLevels (es ++ [e])).getLast?.getD 0 = e.level.outer := by
    rw [outerLevels, List.map_append, List.map_singleton, List.getLast?_concat]
    rfl
  have hnext : o.nextChild p = p ++ [u.children.length] := by
    rw [Outline.nextChild, ht, Option.bind_some, hu]
    rfl
  have hbeatsAt := Outline.beatsAt_addLeaf ht hu (congrArg Outline.trees he)
  rw [he] at hbeatsAt ⊢
  refine ⟨?_, ?_, hlast.symm, ?_⟩
  · cases e.opens <;> rfl
  · show ∃ beats, Outline.beatsAt _ ⟨(o.trees.modify _ _).length - 1, _⟩ = some beats
    rw [List.length_modify, hbeatsAt]
    by_cases ho : e.opens = true
    · rw [if_pos ho, hnext, if_pos rfl]
      exact ⟨e.beats, rfl⟩
    · rw [if_neg ho, if_neg (by simp)]
      exact ⟨u.label, by rw [Outline.beatsAt, ht, Option.bind_some, Rose.labelAt, hu]; rfl⟩
  · show _ = e.level.outer + _
    rw [opened_concat]
    cases e.opens with
    | true =>
      show (o.nextChild p).length + _ = _
      rw [Outline.nextChild, List.length_append, List.length_singleton]
      simp only [if_true]
      omega
    | false => exact hp

/-! ### Along a run -/

theorem losses_reached_of_append {ts us : List Token}
    (h : (reached (ts ++ us)).outline.losses = []) : (reached ts).outline.losses = [] := by
  induction us using List.reverseRecOn with
  | nil => rwa [List.append_nil] at h
  | append_singleton us t ih =>
    rw [← List.append_assoc, reached_concat, outline_after] at h
    have hp := Outline.losses_isPrefix_after (reached (ts ++ us)).outline t
    rw [h] at hp
    exact ih (List.prefix_nil.mp hp)

theorem beatsAt_reached_append {ts us : List Token} {p : Place} {b : Int}
    (h : (reached ts).outline.beatsAt p = some b) :
    (reached (ts ++ us)).outline.beatsAt p = some b := by
  induction us using List.reverseRecOn with
  | nil => rwa [List.append_nil]
  | append_singleton us t ih =>
    rw [← List.append_assoc, reached_concat, outline_after]
    exact Outline.beatsAt_after ih t

/-- **As long as nothing is lost**, there is no open node at all, because there is no tree yet, or
the next node has a place to go to. -/
theorem standing_reached {ts : List Token} (h : (reached ts).outline.losses = []) :
    (reached ts).outline.stack = .empty ∨
      ∃ q, Standing (reached ts).outline (latestExtensions ts) q := by
  induction ts using List.reverseRecOn with
  | nil => exact .inl rfl
  | append_singleton ts t ih =>
    have hs := ih (losses_reached_of_append h)
    rw [reached_concat, outline_after] at h ⊢
    rw [latestExtensions_concat]
    cases Outline.step_after (reached ts).outline t with
    | tree d ht ha =>
      rw [ha, if_pos ht]
      exact .inr ⟨[], standing_addTree d _⟩
    | node e ht he ha =>
      rw [ha] at h ⊢
      rw [ht, if_neg Bool.false_ne_true, he]
      rcases hs with hs | ⟨q, hs⟩
      · exact absurd h (losses_ne_nil_of_stack_eq_empty hs e)
      · obtain ⟨p, t, u, -, -, -, -, hp⟩ := hs.extend h
        exact .inr ⟨_, hp⟩
    | idle ht he ha =>
      rw [ha, ht, if_neg Bool.false_ne_true, he, Option.toList_none, List.append_nil]
      exact hs

/-! ### Nodes of a score -/

theorem Forest.map_beats_nodeAt? (f : Forest) (p : Place) :
    (f.nodeAt? p).map Node.beats =
      (f.map (Rose.map Node.beats))[p.tree]?.bind fun t => t.labelAt p.path := by
  rw [Forest.nodeAt?, Forest.subtreeAt, List.getElem?_map]
  cases f[p.tree]? with
  | none => rfl
  | some t => exact (Rose.labelAt_map Node.beats t p.path).symm

theorem beatsAt_outline (s : BuilderState) (p : Place) :
    s.outline.beatsAt p = (s.forest.nodeAt? p).map Node.beats :=
  (Forest.map_beats_nodeAt? s.forest p).symm

/-- A token creates the node at a place: there is none before the token, and one behind it. -/
def Creates (before : List Token) (t : Token) (p : Place) : Prop :=
  (reached before).forest.nodeAt? p = none ∧ (reached (before ++ [t])).forest.nodeAt? p ≠ none

theorem creates_iff {before : List Token} {t : Token} {p : Place} :
    Creates before t p ↔ (reached before).outline.beatsAt p = none ∧
      (reached (before ++ [t])).outline.beatsAt p ≠ none := by
  rw [beatsAt_outline, beatsAt_outline, Option.map_eq_none_iff, ne_eq, Option.map_eq_none_iff]
  rfl

section

variable {before after : List Token} {t : Token} {score : Score} {e : Extension}

/-- **A node stands at its level if as many levels have been risen as nodes have been opened, and
off it by the difference.** Take a token of a node below a root in a stream whose report has no
underflow and no dropped node. It creates one node, which is in the score with its weight; its depth
and the levels risen since the root, its own rise included, are together as much as its level and
the nodes opened since the root. -/
theorem depth_add_risen (hb : build false (before ++ t :: after) = .ok score)
    (hu : Text.ofString "STACK_UNDERFLOW" ∉ score.report.codes)
    (hn : Text.ofString "NO_OPEN_CONTAINER" ∉ score.report.codes) (he : t.extension? = some e) :
    ∃ p node, (∀ q, Creates before t q ↔ q = p) ∧ score.forest.nodeAt? p = some node ∧
      node.beats = e.beats ∧
      p.depth + risen (latestExtensions (before ++ [t])) =
        e.level.number + opened (latestExtensions before) ∧
      (p.depth = e.level.number ↔
        risen (latestExtensions (before ++ [t])) = opened (latestExtensions before)) := by
  have hlost : (reached (before ++ [t])).outline.losses = [] := by
    have hl := (losses_eq_nil_iff hb).mpr ⟨hu, hn⟩
    rw [List.append_cons] at hl
    exact losses_reached_of_append hl
  obtain ⟨hs, ha⟩ := Outline.after_of_extension? he (reached before).outline
  have ho : (reached (before ++ [t])).outline = (reached before).outline.extend e := by
    rw [reached_concat, outline_after, ha]
  have hes : latestExtensions (before ++ [t]) = latestExtensions before ++ [e] := by
    rw [latestExtensions_concat, hs, if_neg Bool.false_ne_true, he]
    rfl
  rcases standing_reached (losses_reached_of_append hlost) with hz | ⟨q, hq⟩
  · rw [ho] at hlost
    exact absurd hlost (losses_ne_nil_of_stack_eq_empty hz e)
  obtain ⟨p, r, u, hr, hu', hp, htrees, -⟩ := hq.extend (ho ▸ hlost)
  have hbeats := Outline.beatsAt_addLeaf hr hu' htrees
  rw [← ho] at hbeats
  -- the node takes the place of the next child
  have hnew : (reached (before ++ [t])).outline.beatsAt
      ⟨(reached before).outline.trees.length - 1, p ++ [u.children.length]⟩ = some e.beats := by
    rw [hbeats, if_pos rfl]
  have hfree : (reached before).outline.beatsAt
      ⟨(reached before).outline.trees.length - 1, p ++ [u.children.length]⟩ = none := by
    rw [Outline.beatsAt, hr, Option.bind_some, Rose.labelAt_append, hu', Option.bind_some,
      Rose.labelAt_cons, List.getElem?_eq_none (Nat.le_refl _)]
    rfl
  have hscore := @beatsAt_reached_append _ after _ _ hnew
  rw [← List.append_cons, Outline.beatsAt, ← map_beats_build hb,
    ← Forest.map_beats_nodeAt?] at hscore
  obtain ⟨node, hnode, hb'⟩ := Option.map_eq_some_iff.mp hscore
  have hlen : (p ++ [u.children.length]).length = p.length + 1 := by
    rw [List.length_append, List.length_singleton]
  have hone := e.level.one_le
  rw [Level.outer] at hp
  refine ⟨_, node, fun x => ?_, hnode, hb', ?_, ?_⟩
  · rw [creates_iff]
    constructor
    · rintro ⟨hx, hx'⟩
      by_contra hne
      rw [hbeats, if_neg hne] at hx'
      exact hx' hx
    · rintro rfl
      exact ⟨hfree, by rw [hnew]; simp⟩
  · show (p ++ [u.children.length]).length + _ = _
    rw [hlen, hes]
    omega
  · show (p ++ [u.children.length]).length = _ ↔ _
    rw [hlen, hes]
    omega

end

open Token in
/-- A tree with an inner node without children, and a token for a sibling of that node. -/
def unclosedStream : List Token := [root (.ofNat 4), inner 1 (.below 0)]

theorem extension?_leaf (beats : Int) (level : Level) :
    (Token.leaf beats level).extension? = some ⟨false, beats, level⟩ := by
  rw [Token.extension?, Token.instruction?_leaf]

theorem build_unclosedStream :
    build false (unclosedStream ++ Token.leaf 1 (.below 0) :: []) =
      .ok (reached (unclosedStream ++ [Token.leaf 1 (.below 0)])).toScore :=
  build_lenient_eq_ok.mpr ⟨by decide +kernel, rfl⟩

theorem depth_add_risen_unclosedStream :
    ∃ p node, (∀ q, Creates unclosedStream (.leaf 1 (.below 0)) q ↔ q = p) ∧
      (reached (unclosedStream ++ [.leaf 1 (.below 0)])).toScore.forest.nodeAt? p = some node ∧
      node.beats = 1 ∧ p.depth + 0 = 1 + 1 ∧ (p.depth = 1 ↔ 0 = 1) := by
  have hr : risen (latestExtensions (unclosedStream ++ [.leaf 1 (.below 0)])) = 0 := by
    decide +kernel
  have ho : opened (latestExtensions unclosedStream) = 1 := by decide +kernel
  have h := depth_add_risen build_unclosedStream (by decide +kernel) (by decide +kernel)
    (extension?_leaf 1 (.below 0))
  rw [hr, ho] at h
  exact h

/-- A report without losses does not mean that every node stands at its level. -/
theorem not_forall_depth_eq_level :
    ¬ ∀ (before after : List Token) (t : Token) (score : Score) (e : Extension) (p : Place),
      build false (before ++ t :: after) = .ok score →
      Text.ofString "STACK_UNDERFLOW" ∉ score.report.codes →
      Text.ofString "NO_OPEN_CONTAINER" ∉ score.report.codes →
      t.extension? = some e → Creates before t p → p.depth = e.level.number := by
  intro h
  have hc : Creates unclosedStream (Token.leaf 1 (.below 0)) ⟨0, [0, 0]⟩ := by
    unfold Creates
    decide +kernel
  have hd := h unclosedStream [] _ _ _ ⟨0, [0, 0]⟩ build_unclosedStream (by decide +kernel)
    (by decide +kernel) (extension?_leaf 1 (.below 0)) hc
  exact absurd hd (by decide)

end RhythmTree
