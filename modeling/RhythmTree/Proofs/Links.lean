import Mathlib.Data.List.Basic
import Mathlib.Data.List.Induction
import Mathlib.Logic.Relation
import RhythmTree.Proofs.Shape
import RhythmTree.Tree.Basic

/-!
# Linked nodes

Nodes keep each other. A node keeps its children in order, and a child keeps its parent and the root
of its tree. The three are stored apart from each other and might disagree, a child might have been
taken for another one that looks like it, and the loops over the parents of a node would not end if
a node stood above itself. None of this comes about by growth, in whatever order nodes are created
and given children.

* `Links`, `Growth`, `Links.grown`: linked nodes, and what is left by creating them and giving them
  children.
* `Links.Ancestors`, `Links.Path`, `Links.Walk`: the loops over the parents of a node, and the walk
  through the nodes below it.
* `Links.Sound`, `sound_grow`, `sound_grown`: **the links agree with each other, and every node is
  newer than its parent.**
* `Sound.exists_ancestors`, `Sound.path`, `Sound.exists_walk`, `Sound.walk`: **what the loops and
  the walk come to.**
-/

namespace RhythmTree

/-- A node and the nodes that it keeps, by their numbers. -/
structure Linked where
  label : Node
  /-- The node that it was added to. -/
  parent : Option Nat := none
  /-- The root of the node that it was added to. -/
  root : Option Nat := none
  /-- The nodes that were added to it, in this order. -/
  children : List Nat := []

/-- Nodes that keep each other, in the order of their creation. -/
structure Links where
  nodes : List Linked := []

/-- A way in which nodes come about. -/
inductive Growth
  /-- A node by itself. -/
  | create (label : Node)
  /-- A child of a weight for the node with a number. -/
  | addChild (parent : Nat) (beats : Int)

namespace Links

/-- How many nodes there are. -/
def size (l : Links) : Nat := l.nodes.length

/-- What a node carries. -/
def label? (l : Links) (i : Nat) : Option Node := l.nodes[i]?.map Linked.label

/-- The node above a node. -/
def parent? (l : Links) (i : Nat) : Option Nat := l.nodes[i]?.bind Linked.parent

/-- The nodes right below a node. -/
def children (l : Links) (i : Nat) : List Nat := l.nodes[i]?.elim [] Linked.children

/-- The root that a node keeps; a node that keeps none is a root itself. -/
def root (l : Links) (i : Nat) : Nat := (l.nodes[i]?.bind Linked.root).getD i

/-- One more node by itself. -/
def create (label : Node) (l : Links) : Links := ⟨l.nodes ++ [{ label := label }]⟩

/-- One more node, which is the last child of another one. -/
def addChild (i : Nat) (beats : Int) (l : Links) : Links :=
  ⟨l.nodes.modify i (fun n => { n with children := n.children ++ [l.size] }) ++
    [{ label := { beats := beats }, parent := some i, root := some (l.root i) }]⟩

/-- One step of growth. Only a node that there is can be given a child. -/
def grow (l : Links) : Growth → Links
  | .create label => l.create label
  | .addChild i beats => if i < l.size then l.addChild i beats else l

/-- What has grown from nothing. -/
def grown (steps : List Growth) : Links := steps.foldl grow {}

/-! ### Loops and walks -/

/-- The nodes that a loop over the parents of a node comes to, until there is none. -/
inductive Ancestors (l : Links) : Nat → List Nat → Prop
  | top {i : Nat} (none : l.parent? i = none) : Ancestors l i []
  | up {i j : Nat} {js : List Nat} (parent : l.parent? i = some j) (above : Ancestors l j js) :
    Ancestors l i (j :: js)

/-- The numbers that a loop over the parents of a node collects: where the node is found among the
children of its parent, and so on, the last one first. -/
inductive Path (l : Links) : Nat → Address → Prop
  | top {i : Nat} (none : l.parent? i = none) : Path l i []
  | up {i j k : Nat} {p : Address} (parent : l.parent? i = some j)
    (found : (l.children j).idxOf? i = some k) (above : Path l j p) : Path l i (p ++ [k])

/-- The node that is reached from another one by taking the children with some numbers. -/
def descend (l : Links) : Nat → Address → Option Nat
  | i, [] => some i
  | i, k :: p => (l.children i)[k]?.bind fun c => l.descend c p

/-- The walk through some nodes one after the other, each before everything below it. -/
inductive Walk (l : Links) : List Nat → List Nat → Prop
  | nil : Walk l [] []
  | cons {i : Nat} {is ns ms : List Nat} (down : Walk l (l.children i) ns) (rest : Walk l is ms) :
    Walk l (i :: is) (i :: ns ++ ms)

/-- One node is another one or somewhere below it. -/
def Reaches (l : Links) : Nat → Nat → Prop :=
  Relation.ReflTransGen fun i j => j ∈ l.children i

/-! ### Links that agree -/

/-- Parents and children agree, children are in the order of their creation and newer than their
parent, and a node keeps the root that its parent keeps. -/
structure Sound (l : Links) : Prop where
  mem_children : ∀ i j, j ∈ l.children i ↔ l.parent? j = some i
  lt_of_parent : ∀ i j, l.parent? j = some i → i < j
  ordered : ∀ i, (l.children i).Pairwise (· < ·)
  root_of_none : ∀ i, l.parent? i = none → l.root i = i
  root_of_parent : ∀ i j, l.parent? j = some i → l.root j = l.root i

section

variable {l : Links} {i j : Nat}

theorem parent?_of_le (h : l.size ≤ i) : l.parent? i = none := by
  rw [parent?, List.getElem?_eq_none h]
  rfl

theorem children_of_le (h : l.size ≤ i) : l.children i = [] := by
  rw [children, List.getElem?_eq_none h]
  rfl

theorem root_of_le (h : l.size ≤ i) : l.root i = i := by
  rw [root, List.getElem?_eq_none h]
  rfl

theorem lt_size_of_parent (h : l.parent? j = some i) : j < l.size := by
  refine Nat.lt_of_not_le fun hle => ?_
  rw [parent?_of_le hle] at h
  cases h

theorem lt_size_of_mem_children (h : j ∈ l.children i) : i < l.size := by
  refine Nat.lt_of_not_le fun hle => ?_
  rw [children_of_le hle] at h
  cases h

/-! #### A node by itself -/

@[simp] theorem size_create (label : Node) (l : Links) : (l.create label).size = l.size + 1 :=
  List.length_append

theorem getElem?_create (label : Node) (l : Links) (i : Nat) : (l.create label).nodes[i]? =
    if i = l.size then some { label := label } else l.nodes[i]? :=
  getElem?_concat_eq_ite l.nodes _ i

theorem label?_create (label : Node) (l : Links) (i : Nat) :
    (l.create label).label? i = if i = l.size then some label else l.label? i := by
  rw [label?, getElem?_create, label?]
  split <;> rfl

@[simp] theorem parent?_create (label : Node) (l : Links) (i : Nat) :
    (l.create label).parent? i = l.parent? i := by
  rw [parent?, getElem?_create]
  split
  · next h => rw [parent?_of_le (Nat.le_of_eq h.symm)]; rfl
  · rfl

@[simp] theorem children_create (label : Node) (l : Links) (i : Nat) :
    (l.create label).children i = l.children i := by
  rw [children, getElem?_create]
  split
  · next h => rw [children_of_le (Nat.le_of_eq h.symm)]; rfl
  · rfl

@[simp] theorem root_create (label : Node) (l : Links) (i : Nat) :
    (l.create label).root i = l.root i := by
  rw [root, getElem?_create]
  split
  · next h => rw [root_of_le (Nat.le_of_eq h.symm)]; rfl
  · rfl

theorem sound_create (h : l.Sound) (label : Node) : (l.create label).Sound := by
  refine ⟨?_, ?_, ?_, ?_, ?_⟩ <;>
    simp only [parent?_create, children_create, root_create]
  · exact h.mem_children
  · exact h.lt_of_parent
  · exact h.ordered
  · exact h.root_of_none
  · exact h.root_of_parent

/-! #### A child -/

@[simp] theorem size_addChild (i : Nat) (beats : Int) (l : Links) :
    (l.addChild i beats).size = l.size + 1 := by
  rw [size, addChild, List.length_append, List.length_modify]
  rfl

theorem getElem?_addChild (i : Nat) (beats : Int) (l : Links) (j : Nat) :
    (l.addChild i beats).nodes[j]? =
      if j = l.size then
        some { label := { beats := beats }, parent := some i, root := some (l.root i) }
      else l.nodes[j]?.map fun n =>
        if i = j then { n with children := n.children ++ [l.size] } else n := by
  rw [addChild, getElem?_concat_eq_ite, List.length_modify, List.getElem?_modify]
  rfl

theorem label?_addChild (i : Nat) (beats : Int) (l : Links) (j : Nat) :
    (l.addChild i beats).label? j = if j = l.size then some { beats := beats } else l.label? j := by
  rw [label?, getElem?_addChild, label?]
  split
  · rfl
  · rw [Option.map_map]
    refine congrArg (Option.map · l.nodes[j]?) (funext fun n => ?_)
    show (ite _ _ _ : Linked).label = _
    split <;> rfl

theorem parent?_addChild (i : Nat) (beats : Int) (l : Links) (j : Nat) :
    (l.addChild i beats).parent? j = if j = l.size then some i else l.parent? j := by
  rw [parent?, getElem?_addChild, parent?]
  split
  · rfl
  · rw [Option.bind_map]
    refine congrArg (Option.bind l.nodes[j]?) (funext fun n => ?_)
    show (ite _ _ _ : Linked).parent = _
    split <;> rfl

theorem root_addChild (i : Nat) (beats : Int) (l : Links) (j : Nat) :
    (l.addChild i beats).root j = if j = l.size then l.root i else l.root j := by
  rw [root, getElem?_addChild, root]
  split
  · rfl
  · rw [Option.bind_map]
    refine congrArg (fun f => (Option.bind l.nodes[j]? f).getD j) (funext fun n => ?_)
    show (ite _ _ _ : Linked).root = _
    split <;> rfl

theorem children_addChild (hi : i < l.size) (beats : Int) (j : Nat) :
    (l.addChild i beats).children j =
      if j = i then l.children i ++ [l.size] else l.children j := by
  rw [children, getElem?_addChild]
  by_cases hj : j = l.size
  · rw [if_pos hj, if_neg (hj ▸ Nat.ne_of_gt hi), children_of_le (Nat.le_of_eq hj.symm)]
    rfl
  · rw [if_neg hj]
    by_cases hij : j = i
    · subst hij
      simp only [if_true, children, List.getElem?_eq_getElem (show j < l.nodes.length from hi)]
      rfl
    · have hji : ¬ i = j := fun e => hij e.symm
      simp only [if_neg hij, if_neg hji, Option.map_id_fun', id]
      rfl

theorem sound_addChild (h : l.Sound) (hi : i < l.size) (beats : Int) :
    (l.addChild i beats).Sound := by
  refine ⟨fun a b => ?_, fun a b => ?_, fun a => ?_, fun a => ?_, fun a b => ?_⟩ <;>
    simp only [children_addChild hi, parent?_addChild, root_addChild]
  · -- the new node is a child of one node only
    by_cases hb : b = l.size
    · rw [if_pos hb]
      split
      · next ha => exact iff_of_true (by simp [hb]) (congrArg some ha.symm)
      · next ha =>
        refine iff_of_false (fun hm => ?_) fun e => ha (Option.some.inj e).symm
        exact Nat.ne_of_lt (lt_size_of_parent ((h.mem_children a b).mp hm)) hb
    · rw [if_neg hb]
      split
      · next ha =>
        rw [List.mem_append, List.mem_singleton, or_iff_left hb, ha]
        exact h.mem_children i b
      · exact h.mem_children a b
  · split
    · next hb =>
      rintro ⟨⟩
      exact hb ▸ hi
    · exact h.lt_of_parent a b
  · split
    · refine List.pairwise_append.mpr ⟨h.ordered i, List.pairwise_singleton _ _, ?_⟩
      intro b hb c hc
      rw [List.mem_singleton.mp hc]
      exact lt_size_of_parent ((h.mem_children i b).mp hb)
    · exact h.ordered a
  · split
    · intro hn
      cases hn
    · exact h.root_of_none a
  · by_cases hb : b = l.size
    · rw [if_pos hb, if_pos hb]
      rintro ⟨⟩
      rw [if_neg (Nat.ne_of_lt hi)]
    · rw [if_neg hb, if_neg hb]
      intro hp
      have ha : a < l.size := Nat.lt_trans (h.lt_of_parent a b hp) (lt_size_of_parent hp)
      rw [if_neg (Nat.ne_of_lt ha)]
      exact h.root_of_parent a b hp

theorem sound_grow (h : l.Sound) (step : Growth) : (l.grow step).Sound := by
  cases step with
  | create label => exact sound_create h label
  | addChild i beats =>
    rw [grow]
    split
    · next hi => exact sound_addChild h hi beats
    · exact h

theorem sound_empty : Sound {} :=
  ⟨fun _ _ => iff_of_false List.not_mem_nil fun h => (by cases h), fun _ _ h => (by cases h),
    fun _ => .nil, fun _ _ => rfl, fun _ _ h => (by cases h)⟩

theorem grown_concat (steps : List Growth) (step : Growth) :
    grown (steps ++ [step]) = (grown steps).grow step := by
  rw [grown, List.foldl_append]
  rfl

/-- **The links agree with each other however they have grown.** -/
theorem sound_grown (steps : List Growth) : (grown steps).Sound := by
  induction steps using List.reverseRecOn with
  | nil => exact sound_empty
  | append_singleton steps step ih =>
    rw [grown_concat]
    exact sound_grow ih step

/-! ### Up to the root -/

theorem Ancestors.unique {js ks : List Nat} (h : l.Ancestors i js) (h' : l.Ancestors i ks) :
    js = ks := by
  induction h generalizing ks with
  | top none =>
    cases h' with
    | top => rfl
    | up parent _ => cases none.symm.trans parent
  | up parent _ ih =>
    cases h' with
    | top none => cases none.symm.trans parent
    | up parent' above' =>
      obtain rfl := Option.some.inj (parent.symm.trans parent')
      rw [ih above']

theorem Path.unique {p q : Address} (h : l.Path i p) (h' : l.Path i q) : p = q := by
  induction h generalizing q with
  | top none =>
    cases h' with
    | top => rfl
    | up parent _ _ => cases none.symm.trans parent
  | up parent found _ ih =>
    cases h' with
    | top none => cases none.symm.trans parent
    | up parent' found' above' =>
      obtain rfl := Option.some.inj (parent.symm.trans parent')
      rw [ih above', Option.some.inj (found.symm.trans found')]

theorem descend_concat (l : Links) (i k : Nat) (p : Address) :
    l.descend i (p ++ [k]) = (l.descend i p).bind fun j => (l.children j)[k]? := by
  induction p generalizing i with
  | nil =>
    rw [List.nil_append, descend, descend, Option.bind_some]
    exact Option.bind_fun_some _
  | cons m p ih =>
    rw [List.cons_append, descend, descend, Option.bind_assoc]
    exact congrArg _ (funext fun c => ih c)

namespace Sound

variable (h : l.Sound)

include h

/-- **The loop over the parents of a node ends.** -/
theorem exists_ancestors (i : Nat) : ∃ js, l.Ancestors i js := by
  induction i using Nat.strongRecOn with
  | ind i ih =>
    cases hp : l.parent? i with
    | none => exact ⟨[], .top hp⟩
    | some j =>
      obtain ⟨js, hjs⟩ := ih j (h.lt_of_parent j i hp)
      exact ⟨j :: js, .up hp hjs⟩

/-- **It ends in the root that the node keeps.** -/
theorem getLast?_ancestors {js : List Nat} (ha : l.Ancestors i js) :
    (i :: js).getLast? = some (l.root i) := by
  induction ha with
  | top none => rw [h.root_of_none _ none, List.getLast?_singleton]
  | up parent _ ih => rw [List.getLast?_cons_cons, ih, h.root_of_parent _ _ parent]

/-- **The path has one number for every node that the loop comes to.** -/
theorem exists_path {js : List Nat} (ha : l.Ancestors i js) :
    ∃ p, l.Path i p ∧ p.length = js.length := by
  induction ha with
  | top none => exact ⟨[], .top none, rfl⟩
  | @up i j js parent _ ih =>
    obtain ⟨p, hp, hl⟩ := ih
    have hm : i ∈ l.children j := (h.mem_children j i).mpr parent
    obtain ⟨k, hk⟩ := Option.ne_none_iff_exists'.mp
      (mt List.idxOf?_eq_none_iff.mp (not_not_intro hm))
    exact ⟨p ++ [k], .up parent hk hp, by rw [List.length_append, hl]; rfl⟩

/-- **Down from the root, the path leads back to the node.** -/
theorem descend_path {p : Address} (hp : l.Path i p) : l.descend (l.root i) p = some i := by
  induction hp with
  | top none => rw [h.root_of_none _ none, descend]
  | up parent found _ ih =>
    obtain ⟨hk, he, -⟩ := List.idxOf?_eq_some_iff.mp found
    rw [h.root_of_parent _ _ parent, descend_concat, ih, Option.bind_some,
      List.getElem?_eq_getElem hk, he]

end Sound

/-! ### Down to the leaves -/

theorem Walk.unique {is ns ms : List Nat} (h : l.Walk is ns) (h' : l.Walk is ms) : ns = ms := by
  induction h generalizing ms with
  | nil =>
    cases h'
    rfl
  | cons _ _ ihd ihr =>
    cases h' with
    | cons down' rest' => rw [ihd down', ihr rest']

theorem exists_walk_of_forall {is : List Nat} (h : ∀ i ∈ is, ∃ ns, l.Walk (l.children i) ns) :
    ∃ ns, l.Walk is ns := by
  induction is with
  | nil => exact ⟨[], .nil⟩
  | cons i is ih =>
    obtain ⟨ns, hns⟩ := h i List.mem_cons_self
    obtain ⟨ms, hms⟩ := ih fun j hj => h j (List.mem_cons_of_mem i hj)
    exact ⟨i :: ns ++ ms, .cons hns hms⟩

/-- **The walk comes to everything below the nodes that it goes through.** -/
theorem Walk.mem {is ns : List Nat} (h : l.Walk is ns) :
    j ∈ ns ↔ ∃ i ∈ is, l.Reaches i j := by
  induction h with
  | nil => simp
  | @cons i is ns ms _ _ ihd ihr =>
    rw [List.mem_append, List.mem_cons, ihd, ihr, List.exists_mem_cons_iff]
    refine or_congr ?_ Iff.rfl
    rw [Reaches, Relation.ReflTransGen.cases_head_iff]
    exact or_congr eq_comm Iff.rfl

/-- **It comes to every node before its children, and to these in order.** -/
theorem Walk.sublist {is ns : List Nat} (h : l.Walk is ns) :
    is.Sublist ns ∧ ∀ i ∈ ns, (i :: l.children i).Sublist ns := by
  induction h with
  | nil => exact ⟨.slnil, by simp⟩
  | @cons i is ns ms _ _ ihd ihr =>
    refine ⟨?_, fun j hj => ?_⟩
    · exact (ihr.1.trans (List.sublist_append_right ns ms)).cons_cons i
    · rw [List.mem_append, List.mem_cons] at hj
      rcases hj with (rfl | hj) | hj
      · exact (ihd.1.cons_cons j).trans (List.sublist_append_left _ ms)
      · exact ((ihd.2 j hj).cons i).trans (List.sublist_append_left _ ms)
      · exact (ihr.2 j hj).trans (List.sublist_append_right _ ms)

namespace Sound

variable (h : l.Sound)

include h

theorem le_of_reaches (hr : l.Reaches i j) : i ≤ j := by
  induction hr with
  | refl => exact Nat.le_refl i
  | tail _ hc ih =>
    exact Nat.le_trans ih (Nat.le_of_lt (h.lt_of_parent _ _ ((h.mem_children _ _).mp hc)))

/-- Of two nodes above a third one, one is above the other. -/
theorem reaches_or_reaches {k : Nat} (hi : l.Reaches i k) (hj : l.Reaches j k) :
    l.Reaches i j ∨ l.Reaches j i := by
  have hu : Relator.RightUnique (Function.swap fun i j => j ∈ l.children i) := by
    intro c a b ha hb
    exact Option.some.inj
      (((h.mem_children a c).mp ha).symm.trans ((h.mem_children b c).mp hb))
  have hup := Relation.ReflTransGen.total_of_right_unique hu
    (Relation.reflTransGen_swap.mpr hi) (Relation.reflTransGen_swap.mpr hj)
  exact hup.symm.imp Relation.reflTransGen_swap.mp Relation.reflTransGen_swap.mp

/-- No child of a node is below another one. -/
theorem not_reaches_of_siblings {a b : Nat} (ha : a ∈ l.children i) (hb : b ∈ l.children i)
    (hne : a ≠ b) : ¬ l.Reaches a b := by
  intro hr
  rcases Relation.ReflTransGen.cases_tail hr with he | ⟨c, hac, hcb⟩
  · exact hne he.symm
  · obtain rfl := Option.some.inj
      (((h.mem_children c b).mp hcb).symm.trans ((h.mem_children i b).mp hb))
    have hlt := h.lt_of_parent _ _ ((h.mem_children c a).mp ha)
    exact Nat.not_le_of_lt hlt (h.le_of_reaches hac)

/-- **The walk comes to no node twice** if no two of the nodes that it goes through are above each
other. -/
theorem nodup_walk {is ns : List Nat} (hw : l.Walk is ns)
    (apart : is.Pairwise fun i j => ¬ l.Reaches i j ∧ ¬ l.Reaches j i) : ns.Nodup := by
  induction hw with
  | nil => exact .nil
  | @cons i is ns ms down rest ihd ihr =>
    obtain ⟨hi, his⟩ := List.pairwise_cons.mp apart
    have siblings : (l.children i).Pairwise fun a b => ¬ l.Reaches a b ∧ ¬ l.Reaches b a := by
      refine List.Pairwise.imp_of_mem (fun ha hb hlt => ?_) (h.ordered i)
      exact ⟨h.not_reaches_of_siblings ha hb (Nat.ne_of_lt hlt),
        h.not_reaches_of_siblings hb ha (Nat.ne_of_gt hlt)⟩
    have below : ∀ j ∈ ns, l.Reaches i j ∧ j ≠ i := by
      intro j hj
      obtain ⟨c, hc, hcj⟩ := down.mem.mp hj
      have hlt := h.lt_of_parent _ _ ((h.mem_children i c).mp hc)
      exact ⟨.head hc hcj, Nat.ne_of_gt (Nat.lt_of_lt_of_le hlt (h.le_of_reaches hcj))⟩
    rw [List.cons_append, List.nodup_cons, List.nodup_append, List.mem_append]
    refine ⟨?_, ihd siblings, ihr his, fun j hj k hk e => ?_⟩
    · rintro (hm | hm)
      · exact (below i hm).2 rfl
      · obtain ⟨c, hc, hci⟩ := rest.mem.mp hm
        exact (hi c hc).2 hci
    · subst e
      obtain ⟨c, hc, hcj⟩ := rest.mem.mp hk
      rcases h.reaches_or_reaches (below j hj).1 hcj with hr | hr
      · exact (hi c hc).1 hr
      · exact (hi c hc).2 hr

/-- **The walk through a node and those below it ends.** -/
theorem exists_walk (i : Nat) : ∃ ns, l.Walk [i] ns := by
  have hbelow : ∀ n i, l.size - i = n → ∃ ns, l.Walk (l.children i) ns := by
    intro n
    induction n using Nat.strongRecOn with
    | ind n ih =>
      rintro i rfl
      refine exists_walk_of_forall fun c hc => ih _ ?_ c rfl
      have hp := (h.mem_children i c).mp hc
      have hlt := h.lt_of_parent i c hp
      have hsize := lt_size_of_parent hp
      omega
  refine exists_walk_of_forall fun j hj => ?_
  exact hbelow _ j rfl

end Sound

end

/-! ### Nodes in their trees -/

/-- A node has some nodes above it, from its parent to the root that it keeps, and its path leads
back to it. -/
structure Rooted (l : Links) (i : Nat) (js : List Nat) (p : Address) : Prop where
  ancestors : ∀ ks, l.Ancestors i ks ↔ ks = js
  path : ∀ q, l.Path i q ↔ q = p
  ends_in_root : (i :: js).getLast? = some (l.root i)
  length_path : p.length = js.length
  leads_back : l.descend (l.root i) p = some i

/-- The walk from a node comes to it and everything below it, to nothing twice, to every node before
its children, and to these in order. -/
structure Walked (l : Links) (i : Nat) (ns : List Nat) : Prop where
  walk : ∀ ms, l.Walk [i] ms ↔ ms = ns
  mem : ∀ j, j ∈ ns ↔ l.Reaches i j
  nodup : ns.Nodup
  children : ∀ j ∈ ns, (j :: l.children j).Sublist ns

namespace Sound

variable {l : Links} (h : l.Sound)

include h

theorem exists_rooted (i : Nat) : ∃ js p, l.Rooted i js p := by
  obtain ⟨js, hjs⟩ := h.exists_ancestors i
  obtain ⟨p, hp, hl⟩ := h.exists_path hjs
  exact ⟨js, p,
    { ancestors := fun ks => ⟨fun hk => hk.unique hjs, fun e => e ▸ hjs⟩
      path := fun q => ⟨fun hq => hq.unique hp, fun e => e ▸ hp⟩
      ends_in_root := h.getLast?_ancestors hjs
      length_path := hl
      leads_back := h.descend_path hp }⟩

theorem exists_walked (i : Nat) : ∃ ns, l.Walked i ns := by
  obtain ⟨ns, hns⟩ := h.exists_walk i
  exact ⟨ns,
    { walk := fun ms => ⟨fun hm => hm.unique hns, fun e => e ▸ hns⟩
      mem := fun j => by simp [hns.mem]
      nodup := h.nodup_walk hns (List.pairwise_singleton _ _)
      children := hns.sublist.2 }⟩

/-- **Nodes of one tree have different paths.** -/
theorem eq_of_path {i j : Nat} {p : Address} (hi : l.Path i p) (hj : l.Path j p)
    (hr : l.root i = l.root j) : i = j :=
  Option.some.inj ((h.descend_path hi).symm.trans (hr ▸ h.descend_path hj))

end Sound

end Links

end RhythmTree
