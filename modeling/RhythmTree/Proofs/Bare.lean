import RhythmTree.Forest
import RhythmTree.Proofs.Layout

/-!
# Trees without components

Components never matter to the shape of a tree or to its times. The bare tree keeps the shape, the
weights, the durations and the offsets, and everything that builds a tree or fills in its times does
to the bare tree what it does to the tree.

* `Forest.bare_addChild`, `Forest.bare_addComponent`: growing a bare forest.
* `fill_map`, `map_placeAt_eq`: the passes of normalization under a change of the nodes.
* `normalize_bare`, `indivisible_bare`: **normalization and what it finds, without components.**
-/

namespace RhythmTree

/-! ### Walks under a change of the labels -/

namespace Rose

variable {α β : Type}

@[simp] theorem label_map (f : α → β) (t : Rose α) : (t.map f).label = f t.label := by
  cases t
  rw [map_node, label_node, label_node]

theorem map_id (t : Rose α) : t.map id = t := by
  induction t using induction with
  | node a ts ih => rw [map_node, List.map_congr_left ih, List.map_id', id_eq]

theorem addressedFrom_map (f : α → β) {ts : List (Rose α)}
    (h : ∀ t ∈ ts, (t.map f).addressed = t.addressed.map fun e => (e.1, e.2.map f)) (first : Nat) :
    addressedFrom first (ts.map (map f)) =
      (addressedFrom first ts).map fun e => (e.1, e.2.map f) := by
  induction ts generalizing first with
  | nil => rfl
  | cons t rest ih =>
    rw [List.map_cons, addressedFrom, addressedFrom, List.map_append, h t (by simp),
      ih fun u hu => h u (by simp [hu]), List.map_map, List.map_map]
    rfl

/-- The walk in pre-order meets the same addresses, and the changed subtrees there. -/
theorem addressed_map (f : α → β) (t : Rose α) :
    (t.map f).addressed = t.addressed.map fun e => (e.1, e.2.map f) := by
  induction t using induction with
  | node a ts ih =>
    rw [map_node, addressed, addressed, addressedFrom_map f ih, List.map_cons, map_node]

end Rose

/-! ### Bare nodes, trees and forests -/

/-- The node without its components. -/
def Node.bare (n : Node) : Node := { n with components := [] }

namespace Tree

/-- The tree without its components: its shape, its weights, its durations and its offsets. -/
def bare (t : Tree) : Tree := t.map Node.bare

@[simp] theorem label_bare (t : Tree) : t.bare.label = t.label.bare := Rose.label_map _ t

theorem bare_addComponent (c : Component) (t : Tree) : (addComponent c t).bare = t.bare := by
  cases t
  rw [addComponent, Rose.modifyLabel, bare, bare, Rose.map_node, Rose.map_node]
  rfl

theorem bare_addLeaf (beats : Int) (t : Tree) :
    bare (Rose.addLeaf { beats := beats } t) = Rose.addLeaf { beats := beats } t.bare := by
  rw [Rose.addLeaf_eq_graft, bare, Rose.map_graft]
  rfl

end Tree

namespace Forest

/-- The forest without components. -/
def bare (f : Forest) : Forest := f.map Tree.bare

@[simp] theorem length_bare (f : Forest) : f.bare.length = f.length := List.length_map _

theorem bare_append (f g : Forest) : bare (f ++ g) = f.bare ++ g.bare := List.map_append

theorem addChild_concat (f : Forest) (t : Tree) (beats : Int) (path : Address) :
    addChild (f ++ [t]) beats ⟨(f ++ [t]).length - 1, path⟩ =
      f ++ [Rose.modifyAt (Rose.addLeaf { beats := beats }) path t] := by
  rw [addChild, modifyAt, List.length_append, List.length_singleton, Nat.add_sub_cancel,
    Rose.modify_concat]

theorem subtreeAt_concat (f : Forest) (t : Tree) (path : Address) :
    subtreeAt (f ++ [t]) ⟨(f ++ [t]).length - 1, path⟩ = t.subtreeAt path := by
  rw [subtreeAt, List.length_append, List.length_singleton, Nat.add_sub_cancel,
    List.getElem?_concat_length, Option.bind_some]

theorem path_nextChild_concat (f : Forest) (t : Tree) (path : Address) :
    (nextChild (f ++ [t]) ⟨(f ++ [t]).length - 1, path⟩).path =
      path ++ [((t.subtreeAt path).map Rose.children).elim 0 List.length] := by
  rw [nextChild, subtreeAt_concat]
  cases t.subtreeAt path <;> rfl

theorem subtreeAt_bare (f : Forest) (p : Place) :
    f.bare.subtreeAt p = (f.subtreeAt p).map Tree.bare := by
  rw [subtreeAt, subtreeAt, bare, List.getElem?_map]
  cases f[p.tree]? with
  | none => rfl
  | some t => exact Rose.subtreeAt_map Node.bare t p.path

theorem nextChild_bare (f : Forest) (p : Place) : f.bare.nextChild p = f.nextChild p := by
  rw [nextChild, nextChild, subtreeAt_bare]
  cases f.subtreeAt p with
  | none => rfl
  | some t => simp only [Option.map_some, Option.elim_some, Tree.bare, Rose.children_map,
      List.length_map]

theorem bare_addChild (f : Forest) (beats : Int) (p : Place) :
    (f.addChild beats p).bare = f.bare.addChild beats p :=
  Rose.map_modify _ (Rose.map_modifyAt Node.bare (Tree.bare_addLeaf beats) p.path) p.tree f

theorem bare_addComponent (f : Forest) (c : Component) (p : Place) :
    (f.addComponent c p).bare = f.bare := by
  have hm := @Rose.map_modify _ _ Tree.bare _ id
    (Rose.map_modifyAt_of_map_eq (Tree.bare_addComponent c) p.path) p.tree f
  rwa [List.modify_id] at hm

end Forest

/-! ### Normalization under a change of the nodes -/

namespace Tree

section

variable {g : Node → Node} (hb : ∀ n, (g n).beats = n.beats)

include hb

theorem weights_map (ts : List Tree) : weights (ts.map (Rose.map g)) = weights ts := by
  rw [weights, weights, List.map_map]
  refine List.map_congr_left fun t _ => ?_
  rw [Function.comp_apply, Rose.label_map, hb]

theorem totalWeight_map (ts : List Tree) :
    totalWeight (ts.map (Rose.map g)) = totalWeight ts := by
  induction ts with
  | nil => rfl
  | cons t rest ih => rw [List.map_cons, totalWeight, totalWeight, ih, Rose.label_map, hb]

theorem divisible_map (ts : List Tree) :
    divisible (ts.map (Rose.map g)) = divisible ts := by
  rw [divisible, divisible, weights_map hb]

variable {h : Duration → Duration} (hs : ∀ d m n, h (d.share m n) = (h d).share m n)

include hs

theorem fillShares_map {ts : List Tree}
    (ht : ∀ t ∈ ts, ∀ d, fill (h d) (t.map g) = (fill d t).map g) (whole : Duration) (total : Nat) :
    fillShares (h whole) total (ts.map (Rose.map g)) =
      (fillShares whole total ts).map (Rose.map g) := by
  induction ts with
  | nil => rfl
  | cons t rest ih =>
    rw [List.map_cons, fillShares, fillShares, List.map_cons, Rose.label_map, hb, ← hs,
      ht t (by simp), ih fun u hu => ht u (by simp [hu])]

/-- Filling in durations commutes with a change of the nodes that keeps weights and does to every
share what it does to the duration that is shared. -/
theorem fill_map (hd : ∀ n d, g { n with duration := d } = { g n with duration := h d }) (t : Tree)
    (d : Duration) : fill (h d) (t.map g) = (fill d t).map g := by
  induction t using Rose.induction generalizing d with
  | node n ts ih =>
    rw [Rose.map_node, fill, fill, Rose.map_node, divisible_map hb, totalWeight_map hb,
      fillShares_map hb hs ih, ← hd]
    split <;> rfl

omit hs

/-- A change that keeps weights does not change which nodes cannot be divided. -/
theorem indivisible_map (base : Address) (t : Tree) :
    indivisible base (t.map g) = indivisible base t := by
  rw [indivisible, indivisible, Rose.addressed_map, List.filterMap_map]
  refine List.filterMap_congr fun e _ => ?_
  simp only [Function.comp_apply, Rose.children_map, divisible_map hb, weights_map hb]

end

section

variable {g k : Node → Node} {h : Duration → Duration}

/-- A change of the nodes of a laid out tree is a tree laid out elsewhere, if it does to every new
offset what can be done to the offset itself. -/
theorem map_placeAt_eq (hg : ∀ n a, g { n with offset := a } = { k n with offset := h a })
    (hh : ∀ n a, h (a + n.duration) = h a + (k n).duration) (t : Tree) (a : Duration) :
    (placeAt a t).map g = placeAt (h a) (t.map k) := by
  have siblings : ∀ ts : List Tree,
      (∀ t ∈ ts, ∀ a, (placeAt a t).map g = placeAt (h a) (t.map k)) →
      ∀ a, (placeFrom a ts).map (Rose.map g) = placeFrom (h a) (ts.map (Rose.map k)) := by
    intro ts
    induction ts with
    | nil => intro _ a; rfl
    | cons t rest ih =>
      intro ht a
      rw [placeFrom, List.map_cons, List.map_cons, placeFrom, ht t (by simp),
        ih (fun u hu => ht u (by simp [hu])), Rose.label_map, hh]
  induction t using Rose.induction generalizing a with
  | node n ts ih => rw [placeAt, Rose.map_node, Rose.map_node, placeAt, siblings ts ih, hg]

end

/-! ### Normalization of bare trees -/

/-- **Normalization does to a bare tree what it does to the tree.** -/
theorem normalize_bare (t : Tree) : normalize t.bare = (normalize t).bare := by
  have hs : scale t.bare = (scale t).bare := by
    rw [scale, label_bare]
    exact @fill_map Node.bare (fun _ => rfl) id (fun _ _ _ => rfl) (fun _ _ => rfl) t
      t.label.duration
  rw [normalize, normalize, layOut, layOut, hs, label_bare]
  exact (@map_placeAt_eq Node.bare Node.bare id (fun _ _ => rfl) (fun _ _ => rfl) (scale t)
    (scale t).label.offset).symm

/-- **Components do not matter to which nodes cannot be divided.** -/
theorem indivisible_bare (base : Address) (t : Tree) :
    indivisible base t.bare = indivisible base t :=
  @indivisible_map Node.bare (fun _ => rfl) base t

end Tree

theorem Forest.bare_map_normalize (f : Forest) :
    bare (f.map Tree.normalize) = f.bare.map Tree.normalize := by
  rw [bare, bare, List.map_map, List.map_map]
  exact List.map_congr_left fun t _ => t.normalize_bare.symm

end RhythmTree
