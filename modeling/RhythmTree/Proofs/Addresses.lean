import RhythmTree.Proofs.Shape

/-!
# Nodes by their addresses

A tree is determined by what stands at each address. A change at an address reaches the subtree
there and nothing else, and the walk in pre-order visits every address once.

* `subtreeAt_modifyAt_append`: below the address of a change stands the changed subtree.
* `labelAt_modifyAt_of_not_prefix`: elsewhere every label stays.
* `labelAt_modifyAt_addLeaf`: **a new leaf takes one address, and no other label changes.**
* `mem_addressed`, `pairwise_addressed`: **the walk in pre-order meets exactly the subtrees of a
  tree, in the lexicographic order of their addresses.**
-/

namespace RhythmTree.Rose

variable {α β : Type}

theorem subtreeAt_cons_eq_some_iff {t u : Rose α} {i : Nat} {p : Address} :
    t.subtreeAt (i :: p) = some u ↔ ∃ c, t.children[i]? = some c ∧ c.subtreeAt p = some u := by
  rw [subtreeAt_cons, Option.bind_eq_some_iff]

/-- Above a node there are nodes. -/
theorem exists_subtreeAt_of_append {t u : Rose α} {p q : Address}
    (h : t.subtreeAt (p ++ q) = some u) : ∃ v, t.subtreeAt p = some v ∧ v.subtreeAt q = some u := by
  rwa [subtreeAt_append, Option.bind_eq_some_iff] at h

/-! ### Labels -/

/-- The label of the node at an address. -/
def labelAt (t : Rose α) (p : Address) : Option α := (t.subtreeAt p).map label

@[simp] theorem labelAt_nil (t : Rose α) : t.labelAt [] = some t.label := rfl

theorem labelAt_cons (t : Rose α) (i : Nat) (p : Address) :
    t.labelAt (i :: p) = t.children[i]?.bind fun c => c.labelAt p := by
  rw [labelAt, subtreeAt_cons, Option.map_bind]
  rfl

theorem labelAt_append (t : Rose α) (p q : Address) :
    t.labelAt (p ++ q) = (t.subtreeAt p).bind fun u => u.labelAt q := by
  rw [labelAt, subtreeAt_append, Option.map_bind]
  rfl

theorem labelAt_map (f : α → β) (t : Rose α) (p : Address) :
    (t.map f).labelAt p = (t.labelAt p).map f := by
  rw [labelAt, labelAt, subtreeAt_map, Option.map_map, Option.map_map]
  refine congrArg (Option.map · (t.subtreeAt p)) (funext fun u => ?_)
  cases u
  rfl

/-! ### Changes at an address -/

variable {change : Rose α → Rose α}

theorem subtreeAt_modifyAt_append (p q : Address) (t : Rose α) :
    (modifyAt change p t).subtreeAt (p ++ q) =
      (t.subtreeAt p).bind fun u => (change u).subtreeAt q := by
  induction p generalizing t with
  | nil => rfl
  | cons i rest ih =>
    cases t with
    | node a ts =>
      rw [modifyAt, List.cons_append, subtreeAt_cons, subtreeAt_cons, children_node, children_node,
        List.getElem?_modify_eq]
      cases ts[i]? with
      | none => rfl
      | some c => exact ih c

/-- What a change at an address does to the labels is what it does to them below the address, as
long as a relation holds between equal labels. -/
theorem rel_labelAt_modifyAt {R : Option α → Option α → Prop} (refl : ∀ a, R a a)
    (h : ∀ u q, R (u.labelAt q) ((change u).labelAt q)) (p q : Address) (t : Rose α) :
    R (t.labelAt q) ((modifyAt change p t).labelAt q) := by
  induction p generalizing t q with
  | nil => exact h t q
  | cons i rest ih =>
    cases t with
    | node a ts =>
      cases q with
      | nil => exact refl _
      | cons j q =>
        rw [modifyAt, labelAt_cons, labelAt_cons, children_node, children_node,
          List.getElem?_modify]
        split
        · cases ts[j]? with
          | none => exact refl _
          | some c => exact ih q c
        · rw [Option.map_eq_map, Option.map_id']
          exact refl _

/-- A change does not reach the labels above its address and beside it. -/
theorem labelAt_modifyAt_of_not_prefix {p q : Address} (h : ¬ p <+: q) (t : Rose α) :
    (modifyAt change p t).labelAt q = t.labelAt q := by
  induction p generalizing t q with
  | nil => exact absurd List.nil_prefix h
  | cons i rest ih =>
    cases t with
    | node a ts =>
      cases q with
      | nil => rfl
      | cons j q =>
        rw [modifyAt, labelAt_cons, labelAt_cons, children_node, children_node,
          List.getElem?_modify]
        split
        · next hij =>
          subst hij
          have hr : ¬ rest <+: q := fun hp => h ((List.cons_prefix_cons).mpr ⟨rfl, hp⟩)
          cases ts[i]? with
          | none => rfl
          | some c => exact ih hr c
        · rw [Option.map_eq_map, Option.map_id']

theorem labelAt_addLeaf (a : α) (t : Rose α) (q : Address) :
    (addLeaf a t).labelAt q = if q = [t.children.length] then some a else t.labelAt q := by
  cases t with
  | node b ts =>
    cases q with
    | nil => rfl
    | cons i q =>
      rw [addLeaf, labelAt_cons, labelAt_cons, children_node, children_node,
        getElem?_concat_eq_ite]
      by_cases hi : i = ts.length
      · subst hi
        rw [if_pos rfl, Option.bind_some, List.getElem?_eq_none (Nat.le_refl _)]
        cases q with
        | nil => exact (if_pos rfl).symm
        | cons j q => exact (if_neg (by simp)).symm
      · rw [if_neg hi, if_neg (by simp [hi])]

/-- **A new leaf takes the address behind its siblings**, and no other label changes. -/
theorem labelAt_modifyAt_addLeaf {t u : Rose α} {p : Address} (hp : t.subtreeAt p = some u) (a : α)
    (q : Address) : (modifyAt (addLeaf a) p t).labelAt q =
      if q = p ++ [u.children.length] then some a else t.labelAt q := by
  by_cases hq : p <+: q
  · obtain ⟨r, rfl⟩ := hq
    rw [labelAt, subtreeAt_modifyAt_append, labelAt_append, hp, Option.bind_some, Option.bind_some,
      ← labelAt, labelAt_addLeaf]
    simp only [List.append_cancel_left_eq]
  · have hne : q ≠ p ++ [u.children.length] := by
      rintro rfl
      exact hq (List.prefix_append p _)
    rw [if_neg hne, labelAt_modifyAt_of_not_prefix hq]

/-! ### The walk in pre-order -/

theorem mem_addressedFrom {ts : List (Rose α)} {first : Nat} {p : Address} {u : Rose α} :
    (p, u) ∈ addressedFrom first ts ↔
      ∃ i c q, ts[i]? = some c ∧ p = (first + i) :: q ∧ (q, u) ∈ c.addressed := by
  induction ts generalizing first with
  | nil => simp [addressedFrom]
  | cons t rest ih =>
    rw [addressedFrom, List.mem_append, ih]
    constructor
    · rintro (h | ⟨i, c, q, hc, rfl, hq⟩)
      · obtain ⟨⟨q, v⟩, hq, he⟩ := List.mem_map.mp h
        obtain ⟨rfl, rfl⟩ := Prod.mk.inj he
        exact ⟨0, t, q, rfl, rfl, hq⟩
      · exact ⟨i + 1, c, q, hc, by rw [Nat.add_right_comm, Nat.add_assoc], hq⟩
    · rintro ⟨i, c, q, hc, rfl, hq⟩
      cases i with
      | zero =>
        obtain rfl : t = c := Option.some.inj hc
        exact .inl (List.mem_map.mpr ⟨(q, u), hq, rfl⟩)
      | succ i => exact .inr ⟨i, c, q, hc, by rw [Nat.add_right_comm, Nat.add_assoc], hq⟩

/-- **The walk meets exactly the subtrees of a tree**, each with its address. -/
theorem mem_addressed {t u : Rose α} {p : Address} :
    (p, u) ∈ t.addressed ↔ t.subtreeAt p = some u := by
  induction t using induction generalizing p with
  | node a ts ih =>
    rw [addressed, List.mem_cons]
    cases p with
    | nil => simp [mem_addressedFrom, eq_comm]
    | cons i q =>
      rw [subtreeAt_cons_eq_some_iff, children_node, mem_addressedFrom]
      constructor
      · rintro (h | ⟨j, c, r, hc, he, hr⟩)
        · cases h
        · rw [Nat.zero_add] at he
          obtain ⟨rfl, rfl⟩ := List.cons.inj he
          exact ⟨c, hc, (ih c (List.mem_of_getElem? hc)).mp hr⟩
      · rintro ⟨c, hc, hq⟩
        exact .inr ⟨i, c, q, hc, by rw [Nat.zero_add], (ih c (List.mem_of_getElem? hc)).mpr hq⟩

/-- One node comes before another one in pre-order: the addresses are in lexicographic order. -/
def Precedes (p q : Address) : Prop := List.Lex (· < ·) p q

theorem pairwise_addressedFrom {ts : List (Rose α)}
    (h : ∀ t ∈ ts, (t.addressed.map Prod.fst).Pairwise Precedes) (first : Nat) :
    ((addressedFrom first ts).map Prod.fst).Pairwise Precedes := by
  induction ts generalizing first with
  | nil => exact .nil
  | cons t rest ih =>
    rw [addressedFrom, List.map_append, List.pairwise_append]
    refine ⟨?_, ih (fun u hu => h u (by simp [hu])) (first + 1), ?_⟩
    · have ht := h t (by simp)
      rw [List.pairwise_map] at ht
      rw [List.map_map, List.pairwise_map]
      exact ht.imp fun hpq => List.Lex.cons hpq
    · intro p hp q hq
      rw [List.map_map] at hp
      obtain ⟨e, -, rfl⟩ := List.mem_map.mp hp
      obtain ⟨e', he', rfl⟩ := List.mem_map.mp hq
      obtain ⟨i, c, r, -, hr, -⟩ := mem_addressedFrom.mp he'
      rw [hr]
      exact List.Lex.rel (by omega)

/-- **The walk goes through the addresses in lexicographic order.** -/
theorem pairwise_addressed (t : Rose α) : (t.addressed.map Prod.fst).Pairwise Precedes := by
  induction t using induction with
  | node a ts ih =>
    rw [addressed, List.map_cons, List.pairwise_cons]
    refine ⟨?_, pairwise_addressedFrom ih 0⟩
    intro q hq
    obtain ⟨e, he, rfl⟩ := List.mem_map.mp hq
    obtain ⟨i, c, r, -, hr, -⟩ := mem_addressedFrom.mp he
    rw [hr]
    exact List.Lex.nil

end RhythmTree.Rose
