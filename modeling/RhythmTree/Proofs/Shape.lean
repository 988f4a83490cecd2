import Mathlib.Data.List.Basic
import RhythmTree.Rose

/-!
# Trees as lists of trees

The functions on trees that go through the children one by one are functions on the list of the
children. With them a fact about trees goes by `Rose.induction`, from the children to their parent.

* `modifyAt_congr`: a change at an address depends on the subtree there only.
* `graft`: more children after the others, as trees with children of their own.
-/

namespace RhythmTree

theorem getElem?_concat_eq_ite {α : Type} (as : List α) (a : α) (i : Nat) :
    (as ++ [a])[i]? = if i = as.length then some a else as[i]? := by
  rcases Nat.lt_trichotomy i as.length with h | rfl | h
  · rw [List.getElem?_append_left h, if_neg (Nat.ne_of_lt h)]
  · rw [List.getElem?_concat_length, if_pos rfl]
  · rw [if_neg (Nat.ne_of_gt h), List.getElem?_eq_none (Nat.le_of_lt h), List.getElem?_eq_none]
    rw [List.length_append]
    exact h

namespace Rose

variable {α β γ : Type}

/-- A fact about trees holds if it goes from the children of every node to the node. -/
@[elab_as_elim]
theorem induction {motive : Rose α → Prop}
    (node : ∀ (a : α) (ts : List (Rose α)), (∀ t ∈ ts, motive t) → motive (.node a ts))
    (t : Rose α) : motive t :=
  @Rose.rec α motive (fun ts => ∀ t ∈ ts, motive t) node (by simp)
    (fun _ _ ht hts => by simpa using And.intro ht hts) t

theorem mapAll_eq_map (f : α → β) (ts : List (Rose α)) : mapAll f ts = ts.map (map f) := by
  induction ts with
  | nil => rfl
  | cons t rest ih => rw [mapAll, ih, List.map_cons]

theorem labelsAll_eq_flatMap (ts : List (Rose α)) : labelsAll ts = ts.flatMap labels := by
  induction ts with
  | nil => rfl
  | cons t rest ih => rw [labelsAll, ih, List.flatMap_cons]

/-- The walk through siblings is made of the walks through each of them. -/
theorem addressedFrom_eq_flatMap (first : Nat) (ts : List (Rose α)) :
    addressedFrom first ts = (ts.zipIdx first).flatMap fun c =>
      c.1.addressed.map fun entry => (c.2 :: entry.1, entry.2) := by
  induction ts generalizing first with
  | nil => rfl
  | cons t rest ih => rw [addressedFrom, ih, List.zipIdx_cons, List.flatMap_cons]

@[simp] theorem map_node (f : α → β) (a : α) (ts : List (Rose α)) :
    (node a ts).map f = node (f a) (ts.map (map f)) := by
  rw [map, mapAll_eq_map]

@[simp] theorem children_map (f : α → β) (t : Rose α) :
    (t.map f).children = t.children.map (map f) := by
  cases t
  rw [map_node, children_node, children_node]

theorem map_map (f : α → β) (g : β → γ) (t : Rose α) : (t.map f).map g = t.map (g ∘ f) := by
  induction t using induction with
  | node a ts ih =>
    rw [map_node, map_node, map_node, List.map_map]
    exact congrArg _ (List.map_congr_left ih)

theorem labels_map (f : α → β) (t : Rose α) : (t.map f).labels = t.labels.map f := by
  induction t using induction with
  | node a ts ih =>
    rw [map_node, labels, labels, labelsAll_eq_flatMap, labelsAll_eq_flatMap, List.map_cons,
      List.flatMap_map, List.map_flatMap]
    exact congrArg _ (List.flatMap_congr ih)

/-! ### Changes at an address -/

theorem modify_congr {f g : α → α} {i : Nat} {xs : List α} (h : ∀ x, xs[i]? = some x → f x = g x) :
    xs.modify i f = xs.modify i g := by
  induction xs generalizing i with
  | nil => rw [List.modify_nil, List.modify_nil]
  | cons x rest ih =>
    cases i with
    | zero => rw [List.modify_zero_cons, List.modify_zero_cons, h x rfl]
    | succ i =>
      rw [List.modify_succ_cons, List.modify_succ_cons, ih fun y hy => h y hy]

theorem map_modify (f : α → β) {g : α → α} {g' : β → β} (h : ∀ x, f (g x) = g' (f x)) (i : Nat)
    (xs : List α) : (xs.modify i g).map f = (xs.map f).modify i g' := by
  induction xs generalizing i with
  | nil => rw [List.modify_nil, List.map_nil, List.modify_nil]
  | cons x rest ih =>
    cases i with
    | zero => rw [List.modify_zero_cons, List.map_cons, List.map_cons, List.modify_zero_cons, h]
    | succ i =>
      rw [List.modify_succ_cons, List.map_cons, List.map_cons, List.modify_succ_cons, ih]

theorem modify_concat (f : α → α) (xs : List α) (x : α) :
    (xs ++ [x]).modify xs.length f = xs ++ [f x] := by
  rw [List.modify_eq_take_cons_drop (by simp)]
  simp

variable {change change' : Rose α → Rose α}

theorem label_modifyAt {g : α → β} (h : ∀ t, g (change t).label = g t.label) (p : Address)
    (t : Rose α) : g (modifyAt change p t).label = g t.label := by
  cases p with
  | nil => exact h t
  | cons i rest => cases t; rfl

theorem subtreeAt_map (f : α → β) (t : Rose α) (p : Address) :
    (t.map f).subtreeAt p = (t.subtreeAt p).map (map f) := by
  induction p generalizing t with
  | nil => rfl
  | cons i rest ih =>
    rw [subtreeAt_cons, subtreeAt_cons, children_map, List.getElem?_map]
    cases t.children[i]? with
    | none => rfl
    | some c => exact ih c

theorem map_modifyAt (f : α → β) {g : Rose β → Rose β}
    (h : ∀ t, (change t).map f = g (t.map f)) (p : Address) (t : Rose α) :
    (modifyAt change p t).map f = modifyAt g p (t.map f) := by
  induction p generalizing t with
  | nil => exact h t
  | cons i rest ih =>
    cases t with
    | node a ts => rw [modifyAt, map_node, map_node, modifyAt, map_modify (map f) ih]

theorem modifyAt_eq_self (h : ∀ t, change t = t) (p : Address) (t : Rose α) :
    modifyAt change p t = t := by
  induction p generalizing t with
  | nil => exact h t
  | cons i rest ih =>
    cases t with
    | node a ts =>
      have hi : ts.modify i (modifyAt change rest) = ts.modify i id := modify_congr fun c _ => ih c
      rw [modifyAt, hi, List.modify_id]

/-- A change that a function on the labels does not see. -/
theorem map_modifyAt_of_map_eq {f : α → β} (h : ∀ t, (change t).map f = t.map f) (p : Address)
    (t : Rose α) : (modifyAt change p t).map f = t.map f := by
  rw [@map_modifyAt _ _ change f id h]
  exact modifyAt_eq_self (fun _ => rfl) p _

/-- Two changes that agree on the subtree at an address do the same there. -/
theorem modifyAt_congr {p : Address} {t : Rose α}
    (h : ∀ u, t.subtreeAt p = some u → change u = change' u) :
    modifyAt change p t = modifyAt change' p t := by
  induction p generalizing t with
  | nil => exact h t rfl
  | cons i rest ih =>
    cases t with
    | node a ts =>
      rw [modifyAt, modifyAt]
      refine congrArg _ (modify_congr fun c hc => ih fun u hu => h u ?_)
      rw [subtreeAt_cons, children_node, hc]
      exact hu

/-- A change at a joined address is a change at the second address inside the first. -/
theorem modifyAt_append (p q : Address) (t : Rose α) :
    modifyAt change (p ++ q) t = modifyAt (modifyAt change q) p t := by
  induction p generalizing t with
  | nil => rfl
  | cons i rest ih =>
    cases t with
    | node a ts =>
      rw [List.cons_append, modifyAt, modifyAt]
      exact congrArg _ (modify_congr fun c _ => ih c)

/-- Two changes at an address are one change. -/
theorem modifyAt_modifyAt (p : Address) (t : Rose α) :
    modifyAt change' p (modifyAt change p t) = modifyAt (change' ∘ change) p t := by
  induction p generalizing t with
  | nil => rfl
  | cons i rest ih =>
    cases t with
    | node a ts =>
      rw [modifyAt, modifyAt, modifyAt, List.modify_modify_eq]
      exact congrArg _ (modify_congr fun c _ => ih c)

/-! ### Grafts -/

/-- The tree with more children after the others. -/
def graft (ts : List (Rose α)) : Rose α → Rose α
  | node a us => node a (us ++ ts)

@[simp] theorem graft_nil (t : Rose α) : graft [] t = t := by
  cases t
  rw [graft, List.append_nil]

theorem graft_graft (ts us : List (Rose α)) (t : Rose α) :
    graft us (graft ts t) = graft (ts ++ us) t := by
  cases t
  rw [graft, graft, graft, List.append_assoc]

theorem addLeaf_eq_graft (a : α) : addLeaf a = graft [node a []] := by
  funext t
  cases t
  rfl

theorem map_graft (f : α → β) (ts : List (Rose α)) (t : Rose α) :
    (graft ts t).map f = graft (ts.map (map f)) (t.map f) := by
  cases t
  rw [graft, map_node, map_node, graft, List.map_append]

/-- A graft below the child that has been grafted last is a graft of the child with it. -/
theorem modifyAt_last_graft (f : Rose α → Rose α) (c : Rose α) (t : Rose α) :
    modifyAt f [t.children.length] (graft [c] t) = graft [f c] t := by
  cases t with
  | node a us =>
    rw [graft, graft, modifyAt, children_node, List.modify_eq_take_cons_drop (by simp)]
    simp [modifyAt]

end Rose

end RhythmTree
