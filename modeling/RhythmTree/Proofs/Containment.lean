import RhythmTree.Proofs.Growth
import RhythmTree.Proofs.Plain
import RhythmTree.Proofs.Shares

/-!
# Containment

The children of a node of a parsed tree lie back to back from its start on and do not reach beyond
its end. Either they divide its duration among them and reach its end exactly, or they are not
scaled and last for no time at all, because builders give durations to roots only.

* `Unscaled.totalDuration_scale`: after scaling, the children of a node last as long as the node
  together, or they last for no time.
* `Unscaled.tiles_children`, `IsPositive.tiles_children`: where the children of a node lie after
  normalization.
* `contained_of_build`: **every node of every parsed tree contains its children, and a tree with
  positive weights is divided without a rest at every node and down to the leaves.**
-/

namespace RhythmTree

namespace Tree

variable {t u v : Tree} {p : Address}

/-! ### Durations of siblings -/

theorem totalDuration_of_zero {ts : List Tree} (h : ∀ t ∈ ts, t.label.duration = .zero) :
    totalDuration ts = .zero := by
  induction ts with
  | nil => rfl
  | cons t rest ih =>
    rw [totalDuration_cons, h t (by simp), Duration.zero_add]
    exact ih fun u hu => h u (by simp [hu])

theorem totalDuration_fillShares (whole : Duration) (total : Nat) (ts : List Tree) :
    totalDuration (fillShares whole total ts) = whole.share (totalWeight ts) total := by
  induction ts with
  | nil => exact (Duration.share_zero whole total).symm
  | cons t rest ih =>
    rw [fillShares, totalDuration_cons, ih, label_fill, totalWeight, Duration.share_add]

theorem children_fill_of_nil (h : t.children = []) (d : Duration) : (fill d t).children = [] := by
  rw [children_fill, h]
  split <;> rfl

/-- The shares of the children add up to the duration that is divided. -/
theorem Divides.totalDuration_fill (h : t.Divides) (hn : t.children ≠ []) (d : Duration) :
    totalDuration (fill d t).children = d := by
  rw [children_fill, if_pos (divisible_children_iff.mpr h), totalDuration_fillShares]
  obtain ⟨c, cs, hc⟩ := List.exists_cons_of_ne_nil hn
  rw [hc]
  exact Duration.share_self d (totalWeight_ne_zero (h c (by simp [hc])))

/-! ### Scaled trees -/

theorem Unscaled.duration_child (h : t.Unscaled) (hu : t.subtreeAt p = some u) {c : Tree}
    (hc : c ∈ u.children) : c.label.duration = .zero := by
  obtain ⟨i, hi⟩ := List.getElem?_of_mem hc
  refine h (p ++ [i]) c.label (by simp) ?_
  rw [Rose.labelAt_append, hu, Option.bind_some, Rose.labelAt_cons, hi]
  rfl

/-- After scaling, the children of a node last as long as the node together, or for no time. -/
theorem Unscaled.totalDuration_scale (h : t.Unscaled) (hu : t.subtreeAt p = some u)
    (hv : (scale t).subtreeAt p = some v) :
    totalDuration v.children = .zero ∨ totalDuration v.children = v.label.duration := by
  have hz : totalDuration u.children = .zero :=
    totalDuration_of_zero fun c hc => h.duration_child hu hc
  -- only a node that is reached and can be divided gives its children a share
  by_cases hp : t.Divided p
  · obtain ⟨d, -, hs⟩ := subtreeAt_fill_of_divided hu hp t.label.duration
    obtain rfl := Option.some.inj (hv.symm.trans hs)
    by_cases hd : u.Divides
    · by_cases hn : u.children = []
      · left
        rw [children_fill_of_nil hn]
        rfl
      · right
        rw [hd.totalDuration_fill hn, label_fill]
    · left
      rw [children_fill, if_neg fun he => hd (divisible_children_iff.mp he)]
      exact hz
  · obtain rfl := Option.some.inj
      (hv.symm.trans (subtreeAt_fill_of_not_divided hu hp t.label.duration))
    exact .inl hz

theorem IsPositive.subtreeAt (h : t.IsPositive) (hu : t.subtreeAt p = some u) : u.IsPositive := by
  induction p generalizing t with
  | nil => exact Option.some.inj hu ▸ h
  | cons i p ih =>
    obtain ⟨c, hc, hu⟩ := Rose.subtreeAt_cons_eq_some_iff.mp hu
    exact ih (h.child (List.mem_of_getElem? hc)) hu

theorem IsPositive.divides (h : t.IsPositive) (hu : t.subtreeAt p = some u) : u.Divides :=
  divisible_children_iff.mp (h.subtreeAt hu).divisible

/-- If all weights are positive, every node is divided among its children without a rest. -/
theorem IsPositive.totalDuration_scale (h : t.IsPositive) (hu : t.subtreeAt p = some u)
    (hv : (scale t).subtreeAt p = some v) (hn : v.children ≠ []) :
    totalDuration v.children = v.label.duration := by
  have hp : t.Divided p := by
    intro q w _ _ hw
    exact h.divides hw
  obtain ⟨d, -, hs⟩ := subtreeAt_fill_of_divided hu hp t.label.duration
  obtain rfl := Option.some.inj (hv.symm.trans hs)
  have hc : u.children ≠ [] := by
    intro he
    exact hn (children_fill_of_nil he d)
  rw [(h.divides hu).totalDuration_fill hc, label_fill]

/-! ### Trees that are laid out -/

theorem tiles_placeFrom (a : Duration) (ts : List Tree) :
    Tiles a ((placeFrom a ts).map Tree.span) (a + totalDuration ts) := by
  induction ts generalizing a with
  | nil => exact (Duration.add_zero a).symm
  | cons t rest ih =>
    rw [placeFrom, List.map_cons, totalDuration_cons, ← Duration.add_assoc]
    have hs : Tree.span (placeAt a t) = .ofLength t.label.duration a := by
      rw [Tree.span, label_placeAt, Node.span]
    rw [hs]
    exact ⟨rfl, ih (a + t.label.duration)⟩

theorem tiles_children_placeAt (a : Duration) (t : Tree) :
    Tiles (placeAt a t).label.offset ((placeAt a t).children.map Tree.span)
      (a + totalDuration t.children) := by
  rw [label_placeAt, children_placeAt]
  exact tiles_placeFrom a t.children

theorem stop_placeAt (a : Duration) (t : Tree) :
    (placeAt a t).label.stop = a + t.label.duration := by
  rw [label_placeAt, Node.stop]

/-- The children of a node lie back to back from its start on, and stop before its end. -/
theorem Unscaled.tiles_children (h : t.Unscaled) (hu : (normalize t).subtreeAt p = some u) :
    ∃ stop, stop ≤ u.label.stop ∧ Tiles u.label.offset (u.children.map Tree.span) stop := by
  obtain ⟨w, a, v, hw, hv, rfl⟩ := exists_of_subtreeAt_normalize hu
  refine ⟨_, ?_, tiles_children_placeAt a v⟩
  rw [stop_placeAt]
  refine Duration.add_le_add_left ?_ a
  rcases h.totalDuration_scale hw hv with hz | he
  · rw [hz]
    exact Duration.zero_le _
  · rw [he]
    exact Duration.le_refl _

/-- If all weights are positive, the children of a node fill its time. -/
theorem IsPositive.tiles_children (h : t.IsPositive) (hu : (normalize t).subtreeAt p = some u)
    (hn : u.children ≠ []) : Tiles u.label.offset (u.children.map Tree.span) u.label.stop := by
  obtain ⟨w, a, v, hw, hv, rfl⟩ := exists_of_subtreeAt_normalize hu
  have hc : v.children ≠ [] := by
    intro he
    rw [children_placeAt, he] at hn
    exact hn rfl
  rw [stop_placeAt, ← h.totalDuration_scale hw hv hc]
  exact tiles_children_placeAt a v

end Tree

/-! ### Parsed trees -/

open BuilderState

section

variable {strict : Bool} {ts : List Token} {score : Score} {t : Tree}

/-- Every parsed tree is the normalization of one that has grown. -/
theorem exists_grown_of_build (hb : build strict ts = .ok score) (ht : t ∈ score.forest) :
    ∃ r, r.Grown ∧ t = Tree.normalize r := by
  obtain ⟨-, rfl⟩ := build_lenient_eq_ok.mp (build_lenient_of_build hb)
  obtain ⟨r, hr, rfl⟩ := List.mem_map.mp ht
  rw [forest_closeMeasure] at hr
  exact ⟨r, grown_reached ts r hr, rfl⟩

/-- **Every node of a parsed tree contains its children.** Whatever the weights, the first child of
a node starts where the node starts, each further child starts where the one before it stops, and
all of them lie within the time of the node. If all weights below the root are positive, the last
child stops where the node stops, the children last as long as the node, and the leaves of the tree
lie back to back from the start of the root to its end. -/
theorem contained_of_build (hb : build strict ts = .ok score) (ht : t ∈ score.forest) :
    (∀ p u, t.subtreeAt p = some u →
      (∃ stop, Tiles u.label.offset (u.children.map Tree.span) stop) ∧
        Within u.label.offset (u.children.map Tree.span) u.label.stop) ∧
      (t.IsPositive →
        (∀ p u, t.subtreeAt p = some u → u.children ≠ [] →
          Tiles u.label.offset (u.children.map Tree.span) u.label.stop ∧
            Duration.sum (u.children.map fun c => c.label.duration) = u.label.duration) ∧
        Tiles t.label.offset (t.leaves.map Node.span) t.label.stop) := by
  obtain ⟨r, hr, rfl⟩ := exists_grown_of_build hb ht
  constructor
  · intro p u hu
    obtain ⟨stop, hstop, htiles⟩ := hr.unscaled.tiles_children hu
    exact ⟨⟨stop, htiles⟩, htiles.within.mono hstop⟩
  · intro hp
    have hpr : r.IsPositive := Tree.isPositive_normalize.mp hp
    constructor
    · intro p u hu hn
      have htiles := hpr.tiles_children hu hn
      have hsum := htiles.add_totalLength
      rw [totalLength_map_span] at hsum
      exact ⟨htiles, Duration.add_left_cancel hsum⟩
    · rw [Tree.label_normalize]
      exact Tree.tiles_leaves_normalize hpr

end

open Token in
/-- A tree with a node whose children cannot divide it, and one with positive weights. -/
def mixedStream : List Token :=
  [root (.ofNat 4), inner 3 (.below 0), leaf 2 (.below 1), leaf (-1) (.below 1), leaf 1 (.below 0),
    switch .increment, root (.ofNat 3), inner 2 (.below 0), leaf 1 (.below 1), leaf 1 (.below 1),
    leaf 1 (.below 0)]

theorem contained_of_build_mixedStream :
    ∃ score a b, build true mixedStream = .ok score ∧ score.forest = [a, b] ∧ ¬ a.IsPositive ∧
      (∃ stop, Tiles a.label.offset (a.children.map Tree.span) stop) ∧
      Within a.label.offset (a.children.map Tree.span) a.label.stop ∧ b.IsPositive ∧
      Duration.sum (b.children.map fun c => c.label.duration) = b.label.duration ∧
      Tiles b.label.offset (b.leaves.map Node.span) b.label.stop := by
  have hb : build true mixedStream = .ok (reached mixedStream).toScore := rfl
  obtain ⟨a, b, hf, ha, hpos, hn⟩ : ∃ a b, (reached mixedStream).toScore.forest = [a, b] ∧
      ¬ a.IsPositive ∧ b.IsPositive ∧ b.children.isEmpty = false := by
    refine ⟨_, _, rfl, ?_, ?_, ?_⟩
    · unfold Tree.IsPositive
      decide +kernel
    · unfold Tree.IsPositive
      decide +kernel
    · decide +kernel
  obtain ⟨hfirst, -⟩ := contained_of_build hb (show a ∈ _ by simp [hf])
  obtain ⟨-, hsecond⟩ := contained_of_build hb (show b ∈ _ by simp [hf])
  obtain ⟨hnodes, hleaves⟩ := hsecond hpos
  obtain ⟨hstop, hwithin⟩ := hfirst [] a rfl
  obtain ⟨-, hsum⟩ := hnodes [] b rfl (List.isEmpty_eq_false_iff.mp hn)
  exact ⟨_, a, b, hb, hf, ha, hstop, hwithin, hpos, hsum, hleaves⟩

end RhythmTree
