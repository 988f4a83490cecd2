import RhythmTree.Proofs.Containment

/-!
# Covering spans

The span that covers some spans is the least one that holds them all. Its two ends may come from
different spans, but the start is one of the starts and the stop is one of the stops, so that only
the spans themselves matter, not their order or how often they are listed.

* `Span.Inside`, `Span.Covers`: one span inside another one, and the least span that holds some.
* `Span.covers_cover`, `Span.cover_append`: **what `Span.cover` finds, for a list and for two lists
  in a row.**
* `Tree.IsPositive.inside`: no node of a normalized tree with positive weights leaves the root.
* `cover_nodes`: **the same for nodes, and the leaves of a normalized tree cover what the root
  does.**
-/

namespace RhythmTree

namespace Span

variable {a b c d : Span} {spans xs ys : List Span}

/-! ### Spans inside others -/

/-- A span lies inside another one. -/
def Inside (a b : Span) : Prop := b.start ≤ a.start ∧ a.stop ≤ b.stop

namespace Inside

theorem refl (a : Span) : a.Inside a := ⟨Duration.le_refl _, Duration.le_refl _⟩

theorem trans (hab : a.Inside b) (hbc : b.Inside c) : a.Inside c :=
  ⟨Duration.le_trans hbc.1 hab.1, Duration.le_trans hab.2 hbc.2⟩

theorem antisymm (hab : a.Inside b) (hba : b.Inside a) : a = b := by
  have hstart : a.start = b.start := Duration.le_antisymm hba.1 hab.1
  have hstop : a.stop = b.stop := Duration.le_antisymm hab.2 hba.2
  cases a
  cases b
  cases hstart
  cases hstop
  rfl

end Inside

theorem inside_join_left (a b : Span) : a.Inside (a.join b) :=
  ⟨Duration.min_le_left _ _, Duration.le_max_left _ _⟩

theorem inside_join_right (a b : Span) : b.Inside (a.join b) :=
  ⟨Duration.min_le_right _ _, Duration.le_max_right _ _⟩

theorem start_join (a b : Span) : (a.join b).start = a.start ∨ (a.join b).start = b.start := by
  show ite _ _ _ = _ ∨ ite _ _ _ = _
  by_cases h : a.start ≤ b.start
  · exact .inl (if_pos h)
  · exact .inr (if_neg h)

theorem stop_join (a b : Span) : (a.join b).stop = a.stop ∨ (a.join b).stop = b.stop := by
  show ite _ _ _ = _ ∨ ite _ _ _ = _
  by_cases h : a.stop ≤ b.stop
  · exact .inr (if_pos h)
  · exact .inl (if_neg h)

/-! ### The least span that holds some spans -/

/-- The least span that holds some spans: it starts where one of them starts, stops where one of
them stops, and lies inside every span that holds them. -/
structure Covers (c : Span) (spans : List Span) : Prop where
  start : ∃ s ∈ spans, s.start = c.start
  stop : ∃ s ∈ spans, s.stop = c.stop
  holds : ∀ s ∈ spans, s.Inside c
  least : ∀ d, (∀ s ∈ spans, s.Inside d) → c.Inside d

namespace Covers

/-- A span that holds others and has its ends from them is the least one. -/
theorem of_ends (start : ∃ s ∈ spans, s.start = c.start) (stop : ∃ s ∈ spans, s.stop = c.stop)
    (holds : ∀ s ∈ spans, s.Inside c) : c.Covers spans := by
  refine ⟨start, stop, holds, fun d hd => ?_⟩
  obtain ⟨first, hfirst, hstart⟩ := start
  obtain ⟨last, hlast, hstop⟩ := stop
  exact ⟨hstart ▸ (hd first hfirst).1, hstop ▸ (hd last hlast).2⟩

theorem unique (hc : c.Covers xs) (hd : d.Covers ys) (h : ∀ s, s ∈ xs ↔ s ∈ ys) : c = d :=
  (hc.least d fun s hs => hd.holds s ((h s).mp hs)).antisymm
    (hd.least c fun s hs => hc.holds s ((h s).mpr hs))

theorem singleton (c : Span) : c.Covers [c] := by
  refine .of_ends ⟨c, List.mem_singleton_self c, rfl⟩ ⟨c, List.mem_singleton_self c, rfl⟩ ?_
  intro s hs
  rw [List.mem_singleton.mp hs]
  exact .refl c

theorem join (ha : a.Covers xs) (hb : b.Covers ys) : (a.join b).Covers (xs ++ ys) := by
  refine .of_ends ?_ ?_ fun s hs => ?_
  · rcases start_join a b with h | h <;> rw [h]
    · obtain ⟨s, hs, he⟩ := ha.start
      exact ⟨s, List.mem_append_left ys hs, he⟩
    · obtain ⟨s, hs, he⟩ := hb.start
      exact ⟨s, List.mem_append_right xs hs, he⟩
  · rcases stop_join a b with h | h <;> rw [h]
    · obtain ⟨s, hs, he⟩ := ha.stop
      exact ⟨s, List.mem_append_left ys hs, he⟩
    · obtain ⟨s, hs, he⟩ := hb.stop
      exact ⟨s, List.mem_append_right xs hs, he⟩
  · rcases List.mem_append.mp hs with hs | hs
    · exact (ha.holds s hs).trans (inside_join_left a b)
    · exact (hb.holds s hs).trans (inside_join_right a b)

theorem foldl_join (h : a.Covers xs) (ys : List Span) :
    (ys.foldl Span.join a).Covers (xs ++ ys) := by
  induction ys generalizing a xs with
  | nil =>
    rw [List.append_nil]
    exact h
  | cons s rest ih =>
    rw [List.append_cons]
    exact ih (h.join (.singleton s))

/-- The earliest start and the latest stop are the ends of the least span. -/
theorem ofEnds?_eq (h : c.Covers spans) {start stop : Duration}
    (hstart : ∃ s ∈ spans, s.start = start) (hstop : ∃ s ∈ spans, s.stop = stop)
    (within : Within start spans stop) :
    ofEnds? start stop = some c := by
  have hle : start ≤ stop := by
    obtain ⟨s, hs, -⟩ := hstart
    exact Duration.le_trans (within s hs).1 (Duration.le_trans s.start_le_stop (within s hs).2)
  have hends : Covers ⟨start, stop, hle⟩ spans := .of_ends hstart hstop within
  rw [ofEnds?, dif_pos hle, hends.unique h fun _ => Iff.rfl]

end Covers

/-- **The span that covers some spans is the least one that holds them.** -/
theorem covers_cover (h : spans ≠ []) : (cover spans).Covers spans := by
  cases spans with
  | nil => exact absurd rfl h
  | cons first rest => exact (Covers.singleton first).foldl_join rest

/-- **Two lists in a row are covered by the least span that holds what covers each of them.** -/
theorem cover_append (hx : xs ≠ []) (hy : ys ≠ []) :
    cover (xs ++ ys) = (cover xs).join (cover ys) :=
  (covers_cover (by simp [hx])).unique ((covers_cover hx).join (covers_cover hy)) fun _ => Iff.rfl

/-- Neither the order of the spans matters nor how often they are listed. -/
theorem cover_congr (h : ∀ s, s ∈ xs ↔ s ∈ ys) : cover xs = cover ys := by
  by_cases hx : xs = []
  · subst hx
    have hy : ys = [] := List.eq_nil_iff_forall_not_mem.mpr fun s hs => by simpa using (h s).mpr hs
    rw [hy]
  · have hy : ys ≠ [] := by
      obtain ⟨s, hs⟩ := List.exists_mem_of_ne_nil xs hx
      exact List.ne_nil_of_mem ((h s).mp hs)
    exact (covers_cover hx).unique (covers_cover hy) h

end Span

open RhythmTree.Span

/-- Spans that lie back to back are covered by the time between their ends. -/
theorem Tiles.covers {s : Span} {spans : List Span} (h : Tiles s.start spans s.stop)
    (hn : spans ≠ []) : s.Covers spans := by
  refine .of_ends ?_ (h.exists_stop hn) h.within
  obtain ⟨first, rest, rfl⟩ := List.exists_cons_of_ne_nil hn
  exact ⟨first, List.mem_cons_self, h.1⟩

/-! ### Nodes -/

/-- The span that covers some nodes. -/
def Node.cover (nodes : List Node) : Span := .cover (nodes.map Node.span)

namespace Tree

variable {t : Tree}

/-- If every node holds its children, the root holds all nodes. -/
theorem inside_of_within (h : ∀ p u, t.subtreeAt p = some u →
    Within u.label.offset (u.children.map Tree.span) u.label.stop) :
    ∀ n ∈ t.labels, n.span.Inside t.label.span := by
  induction t using Rose.induction with
  | node m ts ih =>
    intro n hn
    rw [Rose.labels, Rose.labelsAll_eq_flatMap, List.mem_cons, List.mem_flatMap] at hn
    rcases hn with rfl | ⟨c, hc, hn⟩
    · exact .refl _
    · obtain ⟨i, hi⟩ := List.getElem?_of_mem hc
      have hchild : n.span.Inside c.label.span := ih c hc (fun p u hu => h (i :: p) u
        (Rose.subtreeAt_cons_eq_some_iff.mpr ⟨c, hi, hu⟩)) n hn
      exact hchild.trans (h [] _ rfl (Tree.span c) (List.mem_map_of_mem hc))

/-- No node of a normalized tree with positive weights leaves the time of the root. -/
theorem IsPositive.inside (h : t.IsPositive) :
    ∀ n ∈ (normalize t).labels, n.span.Inside (normalize t).label.span := by
  refine inside_of_within fun p u hu => ?_
  by_cases hn : u.children = []
  · rw [hn]
    exact within_nil
  · exact (h.tiles_children hu hn).within

theorem leaves_ne_nil (t : Tree) : t.leaves ≠ [] := by
  induction t using Rose.induction with
  | node n ts ih =>
    cases ts with
    | nil => exact List.cons_ne_nil n []
    | cons c rest => exact fun he => ih c List.mem_cons_self (List.append_eq_nil_iff.mp he).1

/-- The root covers all nodes of a normalized tree with positive weights. -/
theorem IsPositive.covers_labels (h : t.IsPositive) :
    (normalize t).label.span.Covers ((normalize t).labels.map Node.span) := by
  have hroot : (normalize t).label ∈ (normalize t).labels := by
    cases normalize t
    exact List.mem_cons_self
  refine .of_ends ⟨_, List.mem_map_of_mem hroot, rfl⟩ ⟨_, List.mem_map_of_mem hroot, rfl⟩ ?_
  exact List.forall_mem_map.mpr h.inside

/-- The root covers the leaves of a normalized tree with positive weights. -/
theorem IsPositive.covers_leaves (h : t.IsPositive) :
    (normalize t).label.span.Covers ((normalize t).leaves.map Node.span) := by
  have htiles : Tiles (normalize t).label.span.start ((normalize t).leaves.map Node.span)
      (normalize t).label.span.stop := by
    rw [label_normalize]
    exact tiles_leaves_normalize h
  exact htiles.covers fun he => leaves_ne_nil _ (List.map_eq_nil_iff.mp he)

end Tree

/-- **The span that covers some nodes is the least one that holds them.** It starts with one of them
and stops with one of them, it lies inside every span that holds all of them, and it is the span
between the earliest start and the latest stop. It depends neither on their order nor on how often
they are listed, and what covers two lists in a row is the least span that holds what covers each
of them. After the normalization of a tree with positive weights the leaves cover what all nodes
cover, which is the time of the root. -/
theorem cover_nodes :
    (∀ nodes : List Node, nodes ≠ [] →
      (Node.cover nodes).Covers (nodes.map Node.span) ∧
        ∀ first ∈ nodes, ∀ last ∈ nodes, (∀ n ∈ nodes, first.offset ≤ n.offset) →
          (∀ n ∈ nodes, n.stop ≤ last.stop) →
            Span.ofEnds? first.offset last.stop = some (Node.cover nodes)) ∧
    (∀ ms ns : List Node, (∀ n, n ∈ ms ↔ n ∈ ns) → Node.cover ms = Node.cover ns) ∧
    (∀ ms ns : List Node, ms ≠ [] → ns ≠ [] →
      (Node.cover (ms ++ ns)).Covers [Node.cover ms, Node.cover ns]) ∧
    ∀ t : Tree, t.IsPositive →
      Node.cover t.normalize.leaves = t.normalize.label.span ∧
        Node.cover t.normalize.labels = t.normalize.label.span := by
  have covers : ∀ nodes : List Node, nodes ≠ [] →
      (Node.cover nodes).Covers (nodes.map Node.span) := fun nodes hn =>
    covers_cover fun he => hn (List.map_eq_nil_iff.mp he)
  refine ⟨fun nodes hn => ⟨covers nodes hn, ?_⟩, fun ms ns h => ?_, fun ms ns hm hn => ?_,
    fun t h => ?_⟩
  · intro first hfirst last hlast hstart hstop
    exact (covers nodes hn).ofEnds?_eq ⟨_, List.mem_map_of_mem hfirst, rfl⟩
      ⟨_, List.mem_map_of_mem hlast, rfl⟩
      (List.forall_mem_map.mpr fun n hm => ⟨hstart n hm, hstop n hm⟩)
  · exact cover_congr fun s => by simp only [List.mem_map, h]
  · rw [Node.cover, List.map_append, cover_append (by simpa using hm) (by simpa using hn)]
    exact (Covers.singleton _).join (.singleton _)
  · have hl := covers _ t.normalize.leaves_ne_nil
    have ha := covers t.normalize.labels (by cases t.normalize; exact List.cons_ne_nil _ _)
    exact ⟨hl.unique h.covers_leaves fun _ => Iff.rfl, ha.unique h.covers_labels fun _ => Iff.rfl⟩

/-- Three nodes out of order, the first of which lies apart from the others. -/
def scatteredNodes : List Node :=
  [{ duration := .ofNat 1, offset := .ofNat 5 }, { duration := .ofNat 3 },
    { duration := .ofNat 1, offset := .ofNat 1 }]

/-- A tree that is divided in two, and in two again. -/
def twiceDivided : Tree :=
  .node { duration := .ofNat 4, offset := .ofNat 2 }
    [.node { beats := 2 } [.node {} [], .node {} []], .node { beats := 1 } []]

theorem cover_nodes_scatteredNodes :
    (Node.cover scatteredNodes).Covers (scatteredNodes.map Node.span) ∧
      Span.ofEnds? .zero (.ofNat 5 + .ofNat 1) = some (Node.cover scatteredNodes) ∧
      Node.cover (scatteredNodes ++ scatteredNodes.reverse) = Node.cover scatteredNodes ∧
      (Node.cover (scatteredNodes ++ [default])).Covers
        [Node.cover scatteredNodes, Node.cover [default]] ∧
      twiceDivided.IsPositive ∧
      Node.cover twiceDivided.normalize.leaves = twiceDivided.normalize.label.span ∧
      Node.cover twiceDivided.normalize.labels = twiceDivided.normalize.label.span := by
  obtain ⟨hcover, hsame, htwo, htree⟩ := cover_nodes
  obtain ⟨hleast, hends⟩ := hcover scatteredNodes (List.cons_ne_nil _ _)
  have hspan := hends { duration := .ofNat 3 } (by simp [scatteredNodes])
    { duration := .ofNat 1, offset := .ofNat 5 } (by simp [scatteredNodes])
    (by decide +kernel) (by decide +kernel)
  have hpositive : twiceDivided.IsPositive := by
    unfold Tree.IsPositive
    decide +kernel
  have happend := htwo scatteredNodes [default] (List.cons_ne_nil _ _) (List.cons_ne_nil _ _)
  exact ⟨hleast, hspan, hsame _ _ (by simp), happend, hpositive, htree _ hpositive⟩

end RhythmTree
