import RhythmTree.Proofs.Extents
import RhythmTree.Score

/-!
# Queries for spans

A score is asked for the trees that overlap a span. A tree does so if its extent meets that of the
span, and the extent of a span that is cut in two is made of the extents of both parts. So it does
not matter where a query is cut, even for trees without a length that stand at the cut.

* `Span.extent_split`: what a cut does to the extent of a span.
* `Forest.Selects`, `Score.selects_treesIn`: a query keeps the order of the trees.
* `Score.treesIn_split`: **a tree is found in a span if and only if it is found in one of two parts
  of it.**
-/

namespace RhythmTree

namespace Span

variable {a t c x : Duration} {s : Span}

theorem extent_iff (h : s.start < s.stop) : s.Extent x ↔ s.start ≤ x ∧ x < s.stop := by
  rw [Extent, if_pos h]

theorem extent_mk (h : a < c) : Extent ⟨a, c, Duration.le_of_lt h⟩ x ↔ a ≤ x ∧ x < c :=
  extent_iff (s := ⟨a, c, Duration.le_of_lt h⟩) h

/-- The points of an extent are before its end, but for a span that has no length. -/
theorem Extent.lt_stop_or (h : s.Extent x) : x < s.stop ∨ x = s.start := by
  unfold Extent at h
  split at h
  · exact .inl h.2
  · exact .inr h

/-- **The extents of the two parts of a span are its extent.** -/
theorem extent_split (hat : a < t) (htc : t < c) :
    Extent ⟨a, c, Duration.le_of_lt (Duration.lt_trans hat htc)⟩ x ↔
      Extent ⟨a, t, Duration.le_of_lt hat⟩ x ∨ Extent ⟨t, c, Duration.le_of_lt htc⟩ x := by
  rw [extent_mk (Duration.lt_trans hat htc), extent_mk hat, extent_mk htc]
  constructor
  · rintro ⟨hax, hxc⟩
    by_cases hxt : x < t
    · exact .inl ⟨hax, hxt⟩
    · exact .inr ⟨Duration.not_lt.mp hxt, hxc⟩
  · rintro (⟨hax, hxt⟩ | ⟨htx, hxc⟩)
    · exact ⟨hax, Duration.lt_trans hxt htc⟩
    · exact ⟨Duration.le_trans (Duration.le_of_lt hat) htx, hxc⟩

/-- A span overlaps another one if and only if it overlaps one of the two parts of it. -/
theorem overlaps_split (hat : a < t) (htc : t < c) (s : Span) :
    s.relationship ⟨a, c, Duration.le_of_lt (Duration.lt_trans hat htc)⟩ = .overlapping ↔
      s.relationship ⟨a, t, Duration.le_of_lt hat⟩ = .overlapping ∨
        s.relationship ⟨t, c, Duration.le_of_lt htc⟩ = .overlapping := by
  simp only [relationship_eq_overlapping_iff, extent_split hat htc, and_or_left, exists_or]

/-- A span that ends before another one begins does not overlap it, and neither does one that starts
where the other one ends. Only a common start makes up for the first. -/
theorem not_overlaps {q : Span} (hq : q.start < q.stop)
    (h : s.stop ≤ q.start ∧ s.start ≠ q.start ∨ q.stop ≤ s.start) :
    s.relationship q ≠ .overlapping := by
  rw [ne_eq, relationship_eq_overlapping_iff]
  rintro ⟨x, hs, hx⟩
  rw [extent_iff hq] at hx
  rcases h with ⟨hstop, hne⟩ | hstart
  · rcases hs.lt_stop_or with hlt | rfl
    · exact Duration.not_le.mpr (Duration.lt_of_lt_of_le hlt hstop) hx.1
    · exact hne (Duration.le_antisymm (Duration.le_trans s.start_le_stop hstop) hx.1)
  · exact Duration.not_le.mpr hx.2 (Duration.le_trans hstart hs.start_le)

end Span

/-- Some trees of a forest with their numbers, in the order of the forest and each of them once. -/
structure Forest.Selects (f : Forest) (found : List (Nat × Tree)) : Prop where
  /-- Every tree is the one with its number. -/
  stands : ∀ i tree, (i, tree) ∈ found → f[i]? = some tree
  /-- The numbers increase. -/
  increasing : (found.map Prod.fst).Pairwise (· < ·)
  /-- The trees are left when others are taken out of the forest. -/
  sublist : (found.map Prod.snd).Sublist f

namespace Score

variable {s : Score} {span : Span} {a t c : Duration} {i : Nat} {tree : Tree}

theorem mem_treesIn : (i, tree) ∈ s.treesIn span ↔
    s.forest[i]? = some tree ∧ tree.label.span.relationship span = .overlapping := by
  rw [treesIn, List.mem_filter, decide_eq_true_eq]
  refine and_congr_left' ?_
  constructor
  · intro h
    obtain ⟨⟨u, j⟩, hu, he⟩ := List.mem_map.mp h
    obtain ⟨rfl, rfl⟩ := Prod.mk.inj he
    exact List.mem_zipIdx_iff_getElem?.mp hu
  · intro h
    exact List.mem_map.mpr ⟨(tree, i), List.mem_zipIdx_iff_getElem?.mpr h, rfl⟩

/-- A query keeps the order of the trees. -/
theorem selects_treesIn (s : Score) (span : Span) : s.forest.Selects (s.treesIn span) := by
  have hsub : (s.treesIn span).Sublist (s.forest.zipIdx.map Prod.swap) :=
    List.filter_sublist
  refine ⟨fun i tree h => (mem_treesIn.mp h).1, ?_, ?_⟩
  · have hfst : (s.forest.zipIdx.map Prod.swap).map Prod.fst =
        List.range' 0 s.forest.length := by
      rw [List.map_map]
      exact List.zipIdx_map_snd 0 s.forest
    exact List.Pairwise.sublist (hfst ▸ hsub.map Prod.fst) List.pairwise_lt_range'
  · have hsnd : (s.forest.zipIdx.map Prod.swap).map Prod.snd = s.forest := by
      rw [List.map_map]
      exact List.zipIdx_map_fst 0 s.forest
    exact hsnd ▸ hsub.map Prod.snd

/-- **A query may be cut in two.** A tree is found between two points of time if and only if it is
found before or behind a point between them. What is found are trees of the forest in its order,
each of them once. A tree that ends at the first point or earlier, and does not start there, is not
found, nor is one that starts at the last point or later. -/
theorem treesIn_split (s : Score) (hat : a < t) (htc : t < c) :
    (∀ i tree, (i, tree) ∈ s.treesIn ⟨a, c, Duration.le_of_lt (Duration.lt_trans hat htc)⟩ ↔
      (i, tree) ∈ s.treesIn ⟨a, t, Duration.le_of_lt hat⟩ ∨
        (i, tree) ∈ s.treesIn ⟨t, c, Duration.le_of_lt htc⟩) ∧
      (∀ span, s.forest.Selects (s.treesIn span)) ∧
      ∀ i tree, (tree.label.stop ≤ a ∧ tree.label.offset ≠ a ∨ c ≤ tree.label.offset) →
        (i, tree) ∉ s.treesIn ⟨a, c, Duration.le_of_lt (Duration.lt_trans hat htc)⟩ ∧
          (i, tree) ∉ s.treesIn ⟨a, t, Duration.le_of_lt hat⟩ ∧
          (i, tree) ∉ s.treesIn ⟨t, c, Duration.le_of_lt htc⟩ := by
  have hsplit : ∀ i tree,
      (i, tree) ∈ s.treesIn ⟨a, c, Duration.le_of_lt (Duration.lt_trans hat htc)⟩ ↔
        (i, tree) ∈ s.treesIn ⟨a, t, Duration.le_of_lt hat⟩ ∨
          (i, tree) ∈ s.treesIn ⟨t, c, Duration.le_of_lt htc⟩ := by
    intro i tree
    rw [mem_treesIn, mem_treesIn, mem_treesIn, Span.overlaps_split hat htc, and_or_left]
  refine ⟨hsplit, s.selects_treesIn, fun i tree h => ?_⟩
  have hn : (i, tree) ∉ s.treesIn ⟨a, c, Duration.le_of_lt (Duration.lt_trans hat htc)⟩ := by
    intro hm
    exact Span.not_overlaps (Duration.lt_trans hat htc) h (mem_treesIn.mp hm).2
  exact ⟨hn, fun hm => hn ((hsplit i tree).mpr (.inl hm)),
    fun hm => hn ((hsplit i tree).mpr (.inr hm))⟩

/-- Trees that touch a cut at two units of time, stand there without a length or go across it, and
trees that touch the ends of a query from one unit to four. -/
def touchingRoots : Score :=
  { forest := [.ofDuration .zero (.ofNat 2), .ofDuration (.ofNat 1) (.ofNat 1),
      .ofDuration (.ofNat 4) .zero, .ofDuration (.ofNat 1) .zero, .ofDuration .zero (.ofNat 1),
      .ofDuration (.ofNat 2) (.ofNat 4), .ofDuration (.ofNat 1) (.ofNat 2)] }

theorem treesIn_split_touchingRoots :
    (touchingRoots.treesIn ⟨.ofNat 1, .ofNat 4, by decide +kernel⟩).map Prod.fst =
        [0, 1, 2, 4, 6] ∧
      (touchingRoots.treesIn ⟨.ofNat 1, .ofNat 2, by decide +kernel⟩).map Prod.fst = [1, 2, 4] ∧
      (touchingRoots.treesIn ⟨.ofNat 2, .ofNat 4, by decide +kernel⟩).map Prod.fst = [0, 2, 6] ∧
      (0, .ofDuration .zero (.ofNat 2)) ∈
        touchingRoots.treesIn ⟨.ofNat 1, .ofNat 4, by decide +kernel⟩ ∧
      touchingRoots.forest.Selects
        (touchingRoots.treesIn ⟨.ofNat 1, .ofNat 4, by decide +kernel⟩) ∧
      (3, .ofDuration (.ofNat 1) .zero) ∉
        touchingRoots.treesIn ⟨.ofNat 1, .ofNat 4, by decide +kernel⟩ := by
  have hat : Duration.ofNat 1 < .ofNat 2 := by decide +kernel
  have htc : Duration.ofNat 2 < .ofNat 4 := by decide +kernel
  have hcut : (0, .ofDuration .zero (.ofNat 2)) ∈
      touchingRoots.treesIn ⟨.ofNat 2, .ofNat 4, by decide +kernel⟩ :=
    mem_treesIn.mpr ⟨rfl, by decide +kernel⟩
  obtain ⟨hsplit, hsel, hnot⟩ := treesIn_split touchingRoots hat htc
  refine ⟨by decide +kernel, by decide +kernel, by decide +kernel, ?_, hsel _, ?_⟩
  · exact (hsplit 0 _).mpr (.inr hcut)
  · exact (hnot 3 _ (.inl ⟨by decide +kernel, by decide +kernel⟩)).1

end Score

end RhythmTree
