import Mathlib.Algebra.Order.Ring.Int
import Mathlib.Data.NNRat.Defs
import Mathlib.Data.PNat.Defs
import RhythmTree.Proofs.Barline

/-!
# Proportions

Normalization knows proportions only. A root that lasts longer by a factor stretches the whole tree
by the factor, a root that starts later moves the whole tree, and the weights of siblings count by
their ratios. Nodes that cannot be divided stay undivided under all three changes.

* `normalize_map_stretch`: **stretching a tree before its normalization or after it is the same.**
* `map_stretch_grow`, `delayRoot_grow`: a tree that is grown from another root.
* `map_fill_modifyAt`: a change somewhere in a tree that durations do not show.
* `normalize_homogeneous`: the three changes of a tree that has been grown from its root.
-/

namespace RhythmTree

/-- The duration times a factor. -/
def Duration.stretch (q : ℚ≥0) (d : Duration) : Duration :=
  ⟨q * d.value, Rat.mul_nonneg q.coe_nonneg d.nonneg⟩

namespace Duration

theorem stretch_zero (q : ℚ≥0) : zero.stretch q = zero :=
  Duration.ext (Rat.mul_zero (q : ℚ))

theorem stretch_add (q : ℚ≥0) (a b : Duration) : (a + b).stretch q = a.stretch q + b.stretch q :=
  Duration.ext (Rat.mul_add (q : ℚ) a.value b.value)

theorem stretch_share (q : ℚ≥0) (d : Duration) (part whole : Nat) :
    (d.share part whole).stretch q = (d.stretch q).share part whole :=
  Duration.ext (Rat.mul_assoc (q : ℚ) d.value _).symm

theorem add_comm (a b : Duration) : a + b = b + a := Duration.ext (Rat.add_comm a.value b.value)

/-- Only the ratio of the parts counts. -/
theorem share_mul {k : Nat} (hk : 0 < k) (d : Duration) (part whole : Nat) :
    d.share (k * part) (k * whole) = d.share part whole := by
  apply Duration.ext
  show d.value * Rat.divInt _ _ = d.value * Rat.divInt _ _
  rw [Nat.cast_mul, Nat.cast_mul, Rat.divInt_mul_left (by omega)]

end Duration

/-- The node with its times multiplied by a factor. -/
def Node.stretch (q : ℚ≥0) (n : Node) : Node :=
  { n with duration := n.duration.stretch q, offset := n.offset.stretch q }

/-- The node without its weight. -/
def Node.unweighted (n : Node) : Node := { n with beats := 0 }

namespace Tree

/-! ### Stretching -/

/-- **Stretching a tree before its normalization or after it is the same.** -/
theorem normalize_map_stretch (q : ℚ≥0) (t : Tree) :
    normalize (t.map (Node.stretch q)) = (normalize t).map (Node.stretch q) := by
  have hs : scale (t.map (Node.stretch q)) = (scale t).map (Node.stretch q) := by
    rw [scale, Rose.label_map]
    exact @fill_map (Node.stretch q) (fun _ => rfl) (Duration.stretch q) (Duration.stretch_share q)
      (fun _ _ => rfl) t t.label.duration
  have hp := @map_placeAt_eq (Node.stretch q) (Node.stretch q) (Duration.stretch q)
    (fun _ _ => rfl) (fun n a => Duration.stretch_add q a n.duration) (scale t)
    (scale t).label.offset
  rw [normalize, normalize, layOut, layOut, hs, Rose.label_map]
  exact hp.symm

/-! ### Trees that are grown -/

/-- The tree that comes about when children are added to a root one after the other, each below the
node at an address and with a weight. -/
def grow (d a : Duration) (children : List (Address × Int)) : Tree :=
  children.foldl (fun t child => Rose.modifyAt (Rose.addLeaf { beats := child.2 }) child.1 t)
    (ofDuration d a)

theorem grow_concat (d a : Duration) (children : List (Address × Int)) (child : Address × Int) :
    grow d a (children ++ [child]) =
      Rose.modifyAt (Rose.addLeaf { beats := child.2 }) child.1 (grow d a children) := by
  rw [grow, List.foldl_append]
  rfl

theorem delayRoot_grow (gap d a : Duration) (children : List (Address × Int)) :
    delayRoot gap (grow d a children) = grow d (gap + a) children := by
  induction children using List.reverseRecOn with
  | nil => rfl
  | append_singleton children child ih => rw [grow_concat, delayRoot_addLeaf, ih, grow_concat]

/-- Below the root there are no times before normalization, so that only the root is stretched. -/
theorem map_stretch_grow (q : ℚ≥0) (d : Duration) (children : List (Address × Int)) :
    (grow d .zero children).map (Node.stretch q) = grow (d.stretch q) .zero children := by
  induction children using List.reverseRecOn with
  | nil =>
    rw [grow, List.foldl_nil, ofDuration, Rose.map_node, List.map_nil, Node.stretch,
      Duration.stretch_zero]
    rfl
  | append_singleton children child ih =>
    have hc : ∀ t : Tree, (Rose.addLeaf { beats := child.2 } t).map (Node.stretch q) =
        Rose.addLeaf { beats := child.2 } (t.map (Node.stretch q)) := by
      intro t
      cases t with
      | node n ts =>
        have hz : Node.stretch q { beats := child.2 } = { beats := child.2 } := by
          rw [Node.stretch, Duration.stretch_zero]
        rw [Rose.addLeaf, Rose.map_node, Rose.map_node, Rose.addLeaf, List.map_append, List.map_cons,
          Rose.map_node, hz]
        rfl
    rw [grow_concat, grow_concat, Rose.map_modifyAt (Node.stretch q) hc, ih]

/-- The times of a grown tree are those from the start of its root on. -/
theorem normalize_grow (d a : Duration) (children : List (Address × Int)) :
    normalize (grow d a children) = (normalize (grow d .zero children)).map (Node.delay a) := by
  rw [← normalize_delayRoot, delayRoot_grow, Duration.add_zero]

/-! ### Heavier siblings -/

/-- The tree with the weight of its root multiplied. -/
def heavier (k : Nat) (t : Tree) : Tree := t.modifyLabel fun n => { n with beats := k * n.beats }

/-- The tree with the weights of the children of its root multiplied. -/
def multiplyWeights (k : Nat) : Tree → Tree
  | .node n ts => .node n (ts.map (heavier k))

section

variable {k : Nat} {change : Tree → Tree}

theorem label_heavier (k : Nat) (t : Tree) :
    (heavier k t).label = { t.label with beats := k * t.label.beats } := by
  cases t
  rfl

theorem fill_heavier (k : Nat) (d : Duration) (t : Tree) :
    fill d (heavier k t) = heavier k (fill d t) := by
  cases t
  rfl

theorem map_unweighted_heavier (k : Nat) (t : Tree) :
    (heavier k t).map Node.unweighted = t.map Node.unweighted := by
  cases t with
  | node n ts => rw [heavier, Rose.modifyLabel, Rose.map_node, Rose.map_node]; rfl

theorem label_multiplyWeights (k : Nat) (t : Tree) : (multiplyWeights k t).label = t.label := by
  cases t
  rfl

theorem map_unweighted_multiplyWeights (k : Nat) (t : Tree) :
    (multiplyWeights k t).map Node.unweighted = t.map Node.unweighted := by
  cases t with
  | node n ts =>
    rw [multiplyWeights, Rose.map_node, Rose.map_node, List.map_map]
    exact congrArg _ (List.map_congr_left fun t _ => map_unweighted_heavier k t)

theorem toNat_natCast_mul (k : Nat) (b : Int) : (k * b).toNat = k * b.toNat := by
  rcases Int.le_total 0 b with hb | hb
  · obtain ⟨n, rfl⟩ := Int.eq_ofNat_of_zero_le hb
    rw [← Int.natCast_mul, Int.toNat_natCast, Int.toNat_natCast]
  · have hk : (k : Int) * b ≤ 0 := Int.mul_nonpos_of_nonneg_of_nonpos (by omega) hb
    rw [Int.toNat_of_nonpos hk, Int.toNat_of_nonpos hb, Nat.mul_zero]

theorem divisible_heavier (hk : 0 < k) (ts : List Tree) :
    divisible (ts.map (heavier k)) = divisible ts := by
  have hb : ∀ b : Int, decide (0 < (k : Int) * b) = decide (0 < b) := by
    intro b
    have hk' : (0 : Int) < k := by omega
    simp only [mul_pos_iff_of_pos_left hk']
  simp only [divisible, weights, List.map_map, List.all_map, Function.comp_def, label_heavier, hb]

theorem totalWeight_heavier (k : Nat) (ts : List Tree) :
    totalWeight (ts.map (heavier k)) = k * totalWeight ts := by
  induction ts with
  | nil => rfl
  | cons t rest ih =>
    rw [List.map_cons, totalWeight, totalWeight, ih, label_heavier, toNat_natCast_mul, Nat.mul_add]

theorem fillShares_heavier (hk : 0 < k) (whole : Duration) (total : Nat) (ts : List Tree) :
    (fillShares whole (k * total) (ts.map (heavier k))).map (Rose.map Node.unweighted) =
      (fillShares whole total ts).map (Rose.map Node.unweighted) := by
  induction ts with
  | nil => rfl
  | cons t rest ih =>
    rw [List.map_cons, fillShares, fillShares, List.map_cons, List.map_cons, ih, label_heavier,
      toNat_natCast_mul, Duration.share_mul hk, fill_heavier, map_unweighted_heavier]

/-- The shares of siblings do not show that all of their weights have been multiplied. -/
theorem map_fill_multiplyWeights (hk : 0 < k) (d : Duration) (t : Tree) :
    (fill d (multiplyWeights k t)).map Node.unweighted = (fill d t).map Node.unweighted := by
  cases t with
  | node n ts =>
    rw [multiplyWeights, fill, fill, divisible_heavier hk, totalWeight_heavier, Rose.map_node,
      Rose.map_node]
    split
    · rw [fillShares_heavier hk]
    · rw [List.map_map]
      exact congrArg _ (List.map_congr_left fun t _ => map_unweighted_heavier k t)

/-! ### Changes that durations do not show -/

theorem weights_modify (hl : ∀ t, (change t).label = t.label) (i : Nat) (ts : List Tree) :
    weights (ts.modify i change) = weights ts := by
  have hb : ∀ t, (change t).label.beats = id t.label.beats := fun t => congrArg Node.beats (hl t)
  rw [weights, Rose.map_modify (fun t : Tree => t.label.beats) hb, List.modify_id, weights]

theorem totalWeight_modify (hl : ∀ t, (change t).label = t.label) (i : Nat) (ts : List Tree) :
    totalWeight (ts.modify i change) = totalWeight ts := by
  induction ts generalizing i with
  | nil => rw [List.modify_nil]
  | cons t rest ih =>
    cases i with
    | zero => rw [List.modify_zero_cons, totalWeight, totalWeight, hl]
    | succ i => rw [List.modify_succ_cons, totalWeight, totalWeight, ih]

theorem map_fillShares_modify (hl : ∀ t, (change t).label = t.label)
    (hf : ∀ d t, (fill d (change t)).map Node.unweighted = (fill d t).map Node.unweighted)
    (whole : Duration) (total i : Nat) (ts : List Tree) :
    (fillShares whole total (ts.modify i change)).map (Rose.map Node.unweighted) =
      (fillShares whole total ts).map (Rose.map Node.unweighted) := by
  induction ts generalizing i with
  | nil => rw [List.modify_nil]
  | cons t rest ih =>
    cases i with
    | zero =>
      rw [List.modify_zero_cons, fillShares, fillShares, List.map_cons, List.map_cons, hl, hf]
    | succ i =>
      rw [List.modify_succ_cons, fillShares, fillShares, List.map_cons, List.map_cons, ih]

/-- **A change that the durations below its place do not show is not shown by any duration.** -/
theorem map_fill_modifyAt (hl : ∀ t, (change t).label = t.label)
    (hm : ∀ t, (change t).map Node.unweighted = t.map Node.unweighted)
    (hf : ∀ d t, (fill d (change t)).map Node.unweighted = (fill d t).map Node.unweighted)
    (p : Address) (d : Duration) (t : Tree) :
    (fill d (Rose.modifyAt change p t)).map Node.unweighted = (fill d t).map Node.unweighted := by
  induction p generalizing t d with
  | nil => exact hf d t
  | cons i p ih =>
    cases t with
    | node n ts =>
      have hlp : ∀ t, (Rose.modifyAt change p t).label = t.label := Rose.label_modifyAt (g := id) hl p
      rw [Rose.modifyAt, fill, fill, Rose.map_node, Rose.map_node, divisible, divisible,
        weights_modify hlp, totalWeight_modify hlp]
      split
      · rw [map_fillShares_modify hlp ih]
      · -- an undivided node leaves its children as they are, with the change among them
        have hmp : ∀ t, (Rose.modifyAt change p t).map Node.unweighted = id (t.map Node.unweighted) :=
          Rose.map_modifyAt_of_map_eq hm p
        rw [Rose.map_modify (Rose.map Node.unweighted) hmp, List.modify_id]

theorem map_normalize_modifyAt (hl : ∀ t, (change t).label = t.label)
    (hm : ∀ t, (change t).map Node.unweighted = t.map Node.unweighted)
    (hf : ∀ d t, (fill d (change t)).map Node.unweighted = (fill d t).map Node.unweighted)
    (p : Address) (t : Tree) :
    (normalize (Rose.modifyAt change p t)).map Node.unweighted =
      (normalize t).map Node.unweighted := by
  have hp : ∀ (u : Tree) (a : Duration),
      (placeAt a u).map Node.unweighted = placeAt a (u.map Node.unweighted) := fun u a =>
    @map_placeAt_eq Node.unweighted Node.unweighted id (fun _ _ => rfl) (fun _ _ => rfl) u a
  have hr : (Rose.modifyAt change p t).label = t.label := Rose.label_modifyAt (g := id) hl p t
  rw [normalize, normalize, layOut, layOut, hp, hp, scale, scale, hr,
    map_fill_modifyAt hl hm hf, label_fill, label_fill, hr]

end

/-! ### Homogeneity -/

/-- **Normalization is homogeneous.** Of a tree that has been grown from a root by adding children:
if the root lasts longer by a factor, all durations are longer by it, and all distances from the
start of the root; if the root starts later, all nodes start later by as much, and nothing else
changes; if the weights of all children of one node are multiplied by a number, no time changes. -/
theorem normalize_homogeneous (d a : Duration) (children : List (Address × Int)) :
    (∀ q : ℚ≥0, (normalize (grow (d.stretch q) a children)).map
        (fun n => (n.duration.value, n.offset.value - a.value)) =
          (normalize (grow d a children)).map
            fun n => ((q : ℚ) * n.duration.value, (q : ℚ) * (n.offset.value - a.value))) ∧
      (∀ c : Duration, normalize (grow d (a + c) children) =
        (normalize (grow d a children)).map fun n => { n with offset := n.offset + c }) ∧
      ∀ (p : Address) (k : ℕ+),
        (normalize (Rose.modifyAt (multiplyWeights k) p (grow d a children))).map
            (fun n => (n.duration, n.offset)) =
          (normalize (grow d a children)).map fun n => (n.duration, n.offset) := by
  refine ⟨fun q => ?_, fun c => ?_, fun p k => ?_⟩
  · rw [normalize_grow (d.stretch q), normalize_grow d, ← map_stretch_grow, normalize_map_stretch,
      Rose.map_map, Rose.map_map, Rose.map_map]
    refine congrArg (Rose.map · _) (funext fun n => ?_)
    have hsub : ∀ x : ℚ, a.value + x - a.value = x := fun x => by grind
    exact Prod.ext rfl ((hsub _).trans (congrArg ((q : ℚ) * ·) (hsub _)).symm)
  · rw [Duration.add_comm, ← delayRoot_grow, normalize_delayRoot]
    refine congrArg (Rose.map · _) (funext fun n => ?_)
    rw [Node.delay, Duration.add_comm]
  · have hu := congrArg (Rose.map fun n => (n.duration, n.offset))
      (map_normalize_modifyAt (label_multiplyWeights k) (map_unweighted_multiplyWeights k)
        (map_fill_multiplyWeights k.pos) p (grow d a children))
    rw [Rose.map_map, Rose.map_map] at hu
    exact hu

end Tree

end RhythmTree
