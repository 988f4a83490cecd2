import RhythmTree.Proofs.Shape
import RhythmTree.Proofs.Tiling
import RhythmTree.Tree.Normalize

/-!
# What normalization does

Normalization fills in durations and offsets and leaves the rest of a tree alone.

* `map_normalize`: the shape of a tree stays, and all in its nodes that is no time.
* `tiles_leaves_normalize`: **if all weights below the root are positive, the leaves lie back to
  back from the start of the root to its end.**
* `tiles_leavesAll`: trees that lie back to back and are tiled by their leaves give one tiling.
-/

namespace RhythmTree.Tree

/-! ### What stays -/

/-- A function on the nodes that does not look at durations does not see new ones. -/
theorem map_fill {β : Type} {f : Node → β} (hf : ∀ n d, f { n with duration := d } = f n) (t : Tree)
    (d : Duration) : (fill d t).map f = t.map f := by
  have shares : ∀ ts : List Tree, (∀ t ∈ ts, ∀ d, (fill d t).map f = t.map f) →
      ∀ (whole : Duration) (total : Nat),
        (fillShares whole total ts).map (Rose.map f) = ts.map (Rose.map f) := by
    intro ts
    induction ts with
    | nil => intro _ whole total; rfl
    | cons t rest ih =>
      intro h whole total
      rw [fillShares, List.map_cons, List.map_cons, h t (by simp),
        ih (fun u hu => h u (by simp [hu]))]
  induction t using Rose.induction generalizing d with
  | node n ts ih =>
    rw [fill, Rose.map_node, Rose.map_node, hf]
    split
    · rw [shares ts ih]
    · rfl

/-- A function on the nodes that does not look at offsets does not see new ones. -/
theorem map_placeAt {β : Type} {f : Node → β} (hf : ∀ n a, f { n with offset := a } = f n)
    (t : Tree) (a : Duration) : (placeAt a t).map f = t.map f := by
  have siblings : ∀ ts : List Tree, (∀ t ∈ ts, ∀ a, (placeAt a t).map f = t.map f) →
      ∀ a, (placeFrom a ts).map (Rose.map f) = ts.map (Rose.map f) := by
    intro ts
    induction ts with
    | nil => intro _ a; rfl
    | cons t rest ih =>
      intro h a
      rw [placeFrom, List.map_cons, List.map_cons, h t (by simp),
        ih (fun u hu => h u (by simp [hu]))]
  induction t using Rose.induction generalizing a with
  | node n ts ih => rw [placeAt, Rose.map_node, Rose.map_node, siblings ts ih, hf]

/-- Normalization keeps the shape of a tree and all that is no time in its nodes. -/
theorem map_normalize {β : Type} {f : Node → β} (hd : ∀ n d, f { n with duration := d } = f n)
    (ha : ∀ n a, f { n with offset := a } = f n) (t : Tree) : (normalize t).map f = t.map f := by
  rw [normalize, layOut, map_placeAt ha, scale, map_fill hd]

/-- Normalization keeps the shape of a tree and the weights of its nodes. -/
theorem map_beats_normalize (t : Tree) : (normalize t).map Node.beats = t.map Node.beats :=
  map_normalize (fun _ _ => rfl) (fun _ _ => rfl) t

theorem label_fill (t : Tree) (d : Duration) :
    (fill d t).label = { t.label with duration := d } := by
  cases t
  rfl

/-- Normalization keeps the root of a tree. -/
theorem label_normalize (t : Tree) : (normalize t).label = t.label := by
  cases t
  rfl

/-! ### Leaves -/

/-- All weights below the root of a tree are positive. -/
def IsPositive (t : Tree) : Prop := ∀ n ∈ Rose.labelsAll t.children, 0 < n.beats

theorem IsPositive.divisible {t : Tree} (h : t.IsPositive) : divisible t.children = true := by
  unfold Tree.divisible weights
  rw [List.all_map, List.all_eq_true]
  intro c hc
  refine decide_eq_true (h c.label ?_)
  rw [Rose.labelsAll_eq_flatMap]
  refine List.mem_flatMap.mpr ⟨c, hc, ?_⟩
  cases c
  rw [Rose.labels]
  exact List.mem_cons_self

theorem IsPositive.child {t : Tree} (h : t.IsPositive) {c : Tree} (hc : c ∈ t.children) :
    c.IsPositive := by
  intro n hn
  refine h n ?_
  rw [Rose.labelsAll_eq_flatMap]
  refine List.mem_flatMap.mpr ⟨c, hc, ?_⟩
  cases c
  rw [Rose.labels]
  exact List.mem_cons_of_mem _ hn

theorem isPositive_iff {t : Tree} :
    t.IsPositive ↔ ∀ b ∈ Rose.labelsAll (t.map Node.beats).children, 0 < b := by
  have hl : Rose.labelsAll (t.map Node.beats).children =
      (Rose.labelsAll t.children).map Node.beats := by
    rw [Rose.children_map, Rose.labelsAll_eq_flatMap, Rose.labelsAll_eq_flatMap, List.flatMap_map,
      List.map_flatMap]
    exact List.flatMap_congr fun c _ => Rose.labels_map Node.beats c
  rw [hl, List.forall_mem_map]
  rfl

theorem isPositive_normalize {t : Tree} : (normalize t).IsPositive ↔ t.IsPositive := by
  rw [isPositive_iff, isPositive_iff, map_beats_normalize]

theorem totalWeight_ne_zero {t : Tree} {ts : List Tree} (h : 0 < t.label.beats) :
    totalWeight (t :: ts) ≠ 0 := by
  rw [totalWeight]
  omega

/-- Siblings with shares that are tiled by their leaves are tiled together. -/
theorem tiles_leaves_placeFrom {ts : List Tree}
    (h : ∀ t ∈ ts, ∀ d a : Duration, Tiles a ((placeAt a (fill d t)).leaves.map Node.span) (a + d))
    (whole : Duration) (total : Nat) (a : Duration) :
    Tiles a ((Rose.leavesAll (placeFrom a (fillShares whole total ts))).map Node.span)
      (a + whole.share (totalWeight ts) total) := by
  induction ts generalizing a with
  | nil =>
    show a = a + whole.share 0 total
    rw [Duration.share_zero, Duration.add_zero]
  | cons t rest ih =>
    rw [fillShares, placeFrom, label_fill, Rose.leavesAll, List.map_append, totalWeight,
      ← Duration.share_add, ← Duration.add_assoc]
    exact (h t (by simp) _ a).append (ih (fun u hu => h u (by simp [hu])) _)

/-- A tree with positive weights that lasts for a time is tiled by its leaves. -/
theorem tiles_leaves_placeAt (t : Tree) (h : t.IsPositive) (d a : Duration) :
    Tiles a ((placeAt a (fill d t)).leaves.map Node.span) (a + d) := by
  induction t using Rose.induction generalizing d a with
  | node n ts ih =>
    have hd : divisible ts = true := h.divisible
    rw [fill, if_pos hd]
    cases ts with
    | nil => exact ⟨rfl, rfl⟩
    | cons c cs =>
      have hc : 0 < c.label.beats := by
        have := List.all_eq_true.mp hd c.label.beats (by simp [weights])
        simpa using this
      have ht := tiles_leaves_placeFrom
        (fun t ht => ih t ht (h.child ht)) d (totalWeight (c :: cs)) a
      rw [Duration.share_self d (totalWeight_ne_zero hc)] at ht
      exact ht

/-- **The leaves of a normalized tree with positive weights tile its time.** -/
theorem tiles_leaves_normalize {t : Tree} (h : t.IsPositive) :
    Tiles t.label.offset ((normalize t).leaves.map Node.span) t.label.stop := by
  have ho : (scale t).label.offset = t.label.offset := by
    rw [scale, label_fill]
  rw [normalize, layOut, ho]
  exact tiles_leaves_placeAt t h t.label.duration t.label.offset

/-- Trees that lie back to back and are tiled by their leaves give one tiling. -/
theorem tiles_leavesAll {f : List Tree} {a b : Duration} (hf : Tiles a (f.map Tree.span) b)
    (h : ∀ t ∈ f, Tiles t.label.offset (t.leaves.map Node.span) t.label.stop) :
    Tiles a ((Rose.leavesAll f).map Node.span) b := by
  induction f generalizing a with
  | nil => exact hf
  | cons t rest ih =>
    obtain ⟨rfl, hr⟩ := hf
    rw [Rose.leavesAll, List.map_append]
    exact (h t (by simp)).append (ih hr fun u hu => h u (by simp [hu]))

end RhythmTree.Tree
