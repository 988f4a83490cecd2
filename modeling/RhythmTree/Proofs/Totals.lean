import Mathlib.Algebra.GroupWithZero.Nat
import RhythmTree.Forest
import RhythmTree.Proofs.Addresses
import RhythmTree.Proofs.Layout

/-!
# Sums over the nodes of a forest

A change at an address adds to a sum over all nodes what it adds to the sum over the subtree there.
So the nodes and the components of a forest can be counted while it grows.

* `Rose.total_modifyAt`: **what a change adds below an address it adds to the tree.**
* `size_addChild`, `length_components_addComponent`: what growing adds to the counts.
* `total_map_normalize`: normalization keeps the sums that do not depend on times.
-/

namespace RhythmTree

namespace Rose

/-! ### Sums over the nodes of trees -/

variable {α : Type} {change : Rose α → Rose α}

/-- The sum of a number over the nodes of some trees. -/
def total (g : α → Nat) (ts : List (Rose α)) : Nat := ((labelsAll ts).map g).sum

theorem total_append (g : α → Nat) (ts us : List (Rose α)) :
    total g (ts ++ us) = total g ts + total g us := by
  rw [total, labelsAll_eq_flatMap, List.flatMap_append, List.map_append, List.sum_append,
    ← labelsAll_eq_flatMap, ← labelsAll_eq_flatMap]
  rfl

theorem total_cons (g : α → Nat) (t : Rose α) (ts : List (Rose α)) :
    total g (t :: ts) = total g [t] + total g ts := total_append g [t] ts

theorem total_node (g : α → Nat) (a : α) (ts : List (Rose α)) :
    total g [node a ts] = g a + total g ts := by
  simp only [total, labelsAll, labels, List.append_nil, List.map_cons, List.sum_cons]

/-- What a change adds to one of some trees, it adds to all of them together. -/
theorem total_modify {g : α → Nat} {i n : Nat} {t : Rose α} {ts : List (Rose α)}
    (hi : ts[i]? = some t) (h : total g [change t] = total g [t] + n) :
    total g (ts.modify i change) = total g ts + n := by
  induction ts generalizing i with
  | nil => cases hi
  | cons u rest ih =>
    rw [total_cons g u]
    cases i with
    | zero =>
      obtain rfl : u = t := Option.some.inj hi
      rw [List.modify_zero_cons, total_cons, h]
      omega
    | succ i =>
      rw [List.modify_succ_cons, total_cons, ih hi]
      omega

/-- What a change adds to the subtree at an address, it adds to the tree. -/
theorem total_modifyAt {g : α → Nat} {n : Nat} {p : Address} {t u : Rose α}
    (hp : t.subtreeAt p = some u) (h : total g [change u] = total g [u] + n) :
    total g [modifyAt change p t] = total g [t] + n := by
  induction p generalizing t with
  | nil =>
    obtain rfl : t = u := Option.some.inj hp
    exact h
  | cons i rest ih =>
    -- one child changes by `n`, and so do the siblings together
    obtain ⟨c, hc, hu⟩ := subtreeAt_cons_eq_some_iff.mp hp
    cases t with
    | node a ts =>
      have hm : total g (ts.modify i (modifyAt change rest)) = total g ts + n :=
        total_modify hc (ih hu)
      rw [modifyAt, total_node, total_node, hm, Nat.add_assoc]

theorem total_addLeaf (g : α → Nat) (a : α) (t : Rose α) :
    total g [addLeaf a t] = total g [t] + g a := by
  cases t with
  | node b ts =>
    rw [addLeaf, total_node, total_node, total_append, total_node, Nat.add_assoc]
    rfl

end Rose

namespace Forest

/-! ### Counts over a forest -/

variable {f : Forest} {p : Place} {u : Tree} {g : Node → Nat}

/-- The nodes below the roots, tree by tree in pre-order. -/
def descendants (f : Forest) : List Node := f.flatMap fun t => Rose.labelsAll t.children

/-- The components of all nodes. -/
def components (f : Forest) : List Component := (Rose.labelsAll f).flatMap Node.components

/-- How many components a node has. -/
def load (n : Node) : Nat := n.components.length

theorem size_eq_total (f : Forest) : f.size = Rose.total (fun _ => 1) f := by
  rw [size, Rose.total, List.map_const', List.sum_replicate_nat, Nat.mul_one]

theorem length_components (f : Forest) : f.components.length = Rose.total load f :=
  List.length_flatMap

theorem size_eq_add (f : Forest) : f.size = f.length + f.descendants.length := by
  induction f with
  | nil => rfl
  | cons t rest ih =>
    cases t with
    | node n ts =>
      have hd : descendants (.node n ts :: rest) = Rose.labelsAll ts ++ descendants rest := rfl
      have hs : size (.node n ts :: rest) = (Rose.labelsAll ts).length + size rest + 1 := by
        rw [size, Rose.labelsAll, Rose.labels, List.cons_append, List.length_cons,
          List.length_append]
        rfl
      rw [hs, hd, ih, List.length_append, List.length_cons]
      omega

theorem total_modifyAt {change : Tree → Tree} {n : Nat} (h : f.subtreeAt p = some u)
    (hu : Rose.total g [change u] = Rose.total g [u] + n) :
    Rose.total g (f.modifyAt change p) = Rose.total g f + n := by
  obtain ⟨t, ht, hp⟩ := Option.bind_eq_some_iff.mp h
  exact Rose.total_modify ht (Rose.total_modifyAt hp hu)

theorem total_addChild (h : f.subtreeAt p = some u) (beats : Int) :
    Rose.total g (f.addChild beats p) = Rose.total g f + g { beats := beats } :=
  total_modifyAt h (Rose.total_addLeaf g _ u)

theorem size_addChild (h : f.subtreeAt p = some u) (beats : Int) :
    (f.addChild beats p).size = f.size + 1 := by
  rw [size_eq_total, size_eq_total, total_addChild h]

theorem length_components_addChild (h : f.subtreeAt p = some u) (beats : Int) :
    (f.addChild beats p).components.length = f.components.length := by
  rw [length_components, length_components, total_addChild h]
  rfl

theorem size_addComponent (h : f.subtreeAt p = some u) (c : Component) :
    (f.addComponent c p).size = f.size := by
  rw [size_eq_total, size_eq_total]
  refine total_modifyAt (n := 0) h ?_
  cases u
  rw [Tree.addComponent, Rose.modifyLabel, Rose.total_node, Rose.total_node, Nat.add_zero]

theorem length_components_addComponent (h : f.subtreeAt p = some u) (c : Component) :
    (f.addComponent c p).components.length = f.components.length + 1 := by
  rw [length_components, length_components]
  refine total_modifyAt h ?_
  cases u
  rw [Tree.addComponent, Rose.modifyLabel, Rose.total_node, Rose.total_node, load, load,
    List.length_append, List.length_singleton]
  omega

theorem size_concat (f : Forest) (d a : Duration) :
    size (f ++ [.ofDuration d a]) = f.size + 1 := by
  rw [size_eq_total, size_eq_total, Rose.total_append]
  rfl

theorem length_components_concat (f : Forest) (d a : Duration) :
    (components (f ++ [.ofDuration d a])).length = f.components.length := by
  rw [length_components, length_components, Rose.total_append]
  rfl

/-- Normalization keeps what does not depend on times. -/
theorem total_map_normalize (hd : ∀ n d, g { n with duration := d } = g n)
    (ha : ∀ n a, g { n with offset := a } = g n) (f : Forest) :
    Rose.total g (f.map Tree.normalize) = Rose.total g f := by
  induction f with
  | nil => rfl
  | cons t rest ih =>
    have ht : Rose.total g [Tree.normalize t] = Rose.total g [t] := by
      simp only [Rose.total, Rose.labelsAll, List.append_nil, ← Rose.labels_map,
        Tree.map_normalize hd ha]
    rw [List.map_cons, Rose.total_cons, Rose.total_cons g t, ih, ht]

theorem length_components_map_normalize (f : Forest) :
    (components (f.map Tree.normalize)).length = f.components.length := by
  rw [length_components, length_components]
  exact total_map_normalize (fun _ _ => rfl) (fun _ _ => rfl) f

theorem length_descendants_map_normalize (f : Forest) :
    (descendants (f.map Tree.normalize)).length = f.descendants.length := by
  have h := size_eq_add f
  have h' := size_eq_add (f.map Tree.normalize)
  rw [size_eq_total, total_map_normalize (fun _ _ => rfl) (fun _ _ => rfl), ← size_eq_total,
    List.length_map] at h'
  omega

end Forest

end RhythmTree
