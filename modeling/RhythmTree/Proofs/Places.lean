import Mathlib.Data.List.Forall2
import RhythmTree.Proofs.Decoration
import RhythmTree.Proofs.Links

/-!
# Linked nodes and their places

In a forest a node is told by its place, the number of its tree and its address there. Places are
not stored but count on growth never to move a node. So a forest has everything that linked nodes
keep: the parent and the root of a node are places made from its own, and the walk below it goes
through its subtree.

* `Numbered`, `Numbered.grown`: a forest that has grown, with its places in the order of their
  creation.
* `Numbered.Shows`, `Shows.grow`, `shows_grown`: **a forest shows the linked nodes that have grown
  in the same way.**
* `Shows.parent?`, `Shows.root`, `Shows.path`, `Shows.walk`: what is read off a place is what the
  loops over the links come to.
* `growth_structure`: **linked nodes that have grown make trees, and a forest shows them.**
-/

namespace RhythmTree

/-! ### Places -/

namespace Place

variable {p q : Place} {i j : Nat}

theorem child_eq_child_iff : p.child i = q.child j ↔ p = q ∧ i = j := by
  refine ⟨fun h => ⟨child_inj h, ?_⟩, fun ⟨hp, hi⟩ => hp ▸ hi ▸ rfl⟩
  simpa using (List.append_inj' (congrArg Place.path h) rfl).2

@[simp] theorem parent?_child (p : Place) (i : Nat) : (p.child i).parent? = some p := by
  simp [parent?, child]

@[simp] theorem root_child (p : Place) (i : Nat) : (p.child i).root = p.root := rfl

@[simp] theorem path_child (p : Place) (i : Nat) : (p.child i).path = p.path ++ [i] := rfl

end Place

/-! ### The walk below a place -/

namespace Forest

variable {f : Forest} {p : Place} {u : Tree}

theorem subtreeAt_child (h : f.subtreeAt p = some u) (i : Nat) :
    f.subtreeAt (p.child i) = u.children[i]? := by
  obtain ⟨t, ht, hu⟩ := Option.bind_eq_some_iff.mp h
  show f[p.tree]?.bind (fun t => t.subtreeAt (p.path ++ [i])) = _
  rw [ht, Option.bind_some, Rose.subtreeAt_append, hu, Option.bind_some, Rose.subtreeAt_cons]
  exact Option.bind_fun_some _

/-- The walk below a place comes to the place and then goes below the places of its children. -/
theorem placesBelow_of_subtreeAt (h : f.subtreeAt p = some u) : f.placesBelow p =
    (p, u) :: ((List.range u.children.length).map p.child).flatMap f.placesBelow := by
  have hchild : ∀ c ∈ u.children.zipIdx, f.placesBelow (p.child c.2) =
      (c.1.addressed.map fun entry => (c.2 :: entry.1, entry.2)).map fun entry =>
        (⟨p.tree, p.path ++ entry.1⟩, entry.2) := by
    intro c hc
    rw [placesBelow, subtreeAt_child h, List.mem_zipIdx_iff_getElem?.mp hc, List.map_map]
    refine List.map_congr_left fun entry _ => ?_
    show ((⟨p.tree, p.path ++ [c.2] ++ entry.1⟩ : Place), entry.2) = _
    rw [List.append_assoc]
    rfl
  have hrange : List.range u.children.length = u.children.zipIdx.map Prod.snd := by
    rw [List.zipIdx_map_snd, List.range_eq_range']
  have hwalk : f.placesBelow p =
      u.addressed.map fun entry => (⟨p.tree, p.path ++ entry.1⟩, entry.2) := by
    rw [placesBelow, h]
  rw [hwalk, hrange, List.map_map, List.flatMap_map]
  cases u with
  | node n ts =>
    rw [Rose.addressed, List.map_cons, List.append_nil, Rose.addressedFrom_eq_flatMap,
      List.map_flatMap]
    exact congrArg _ (List.flatMap_congr hchild).symm

end Forest

/-! ### Numbered places -/

/-- A forest and its places in the order of their creation. -/
structure Numbered where
  forest : Forest := []
  places : List Place := []

namespace Numbered

/-- One step of growth. Only a node that there is can be given a child. -/
def grow (s : Numbered) : Growth → Numbered
  | .create label => ⟨s.forest ++ [.node label []], s.places ++ [s.forest.nextRoot]⟩
  | .addChild i beats =>
    s.places[i]?.elim s fun p => ⟨s.forest.addChild beats p, s.places ++ [s.forest.nextChild p]⟩

/-- What has grown from nothing. -/
def grown (steps : List Growth) : Numbered := steps.foldl grow {}

theorem grown_concat (steps : List Growth) (step : Growth) :
    grown (steps ++ [step]) = (grown steps).grow step := by
  rw [grown, List.foldl_append]
  rfl

/-- A forest shows some linked nodes: its places are numbered like the nodes and carry what they
carry, nodes without a parent are roots, and children stand below their parents in order. -/
structure Shows (s : Numbered) (l : Links) : Prop where
  length_places : s.places.length = l.size
  nodup : s.places.Nodup
  mem_places : ∀ p, p ∈ s.places ↔ s.forest.nodeAt? p ≠ none
  label : ∀ i p, s.places[i]? = some p → s.forest.nodeAt? p = l.label? i
  top : ∀ i p, s.places[i]? = some p → l.parent? i = none → p.path = []
  child : ∀ i j k p, s.places[i]? = some p → (l.children i)[k]? = some j →
    s.places[j]? = some (p.child k)

namespace Shows

variable {s : Numbered} {l : Links} {i j : Nat} {p q : Place}

theorem inj (h : Shows s l) (hi : s.places[i]? = some p) (hj : s.places[j]? = some p) : i = j := by
  obtain ⟨hlt, -⟩ := List.getElem?_eq_some_iff.mp hi
  exact (List.getElem?_inj hlt h.nodup).mp (hi.trans hj.symm)

theorem exists_place (h : Shows s l) (hi : i < l.size) : ∃ p, s.places[i]? = some p :=
  ⟨_, List.getElem?_eq_getElem (h.length_places ▸ hi)⟩

theorem lt_size (h : Shows s l) (hi : s.places[i]? = some p) : i < l.size :=
  h.length_places ▸ (List.getElem?_eq_some_iff.mp hi).1

/-- A node that has a parent stands below it, at the number that it has among the children. -/
theorem exists_child (h : Shows s l) (hs : l.Sound) (hp : s.places[j]? = some p)
    (hj : l.parent? j = some i) :
    ∃ q k, s.places[i]? = some q ∧ (l.children i)[k]? = some j ∧ p = q.child k := by
  obtain ⟨q, hq⟩ := h.exists_place (Nat.lt_trans (hs.lt_of_parent i j hj) (h.lt_size hp))
  obtain ⟨k, hk⟩ := List.getElem?_of_mem ((hs.mem_children i j).mpr hj)
  exact ⟨q, k, hq, hk, Option.some.inj (hp.symm.trans (h.child i j k q hq hk))⟩

/-- Right below a place there are as many nodes as its node has children. -/
theorem nodeAt?_child_ne_none_iff (h : Shows s l) (hs : l.Sound) (hp : s.places[i]? = some p)
    (k : Nat) : s.forest.nodeAt? (p.child k) ≠ none ↔ k < (l.children i).length := by
  rw [← h.mem_places, List.mem_iff_getElem?]
  constructor
  · rintro ⟨j, hj⟩
    cases hparent : l.parent? j with
    | none => exact absurd (h.top j _ hj hparent) (by simp)
    | some i' =>
      obtain ⟨q, k', hq, hk, he⟩ := h.exists_child hs hj hparent
      obtain ⟨rfl, rfl⟩ := Place.child_eq_child_iff.mp he
      obtain rfl := h.inj hp hq
      exact (List.getElem?_eq_some_iff.mp hk).1
  · intro hk
    exact ⟨_, h.child i _ k p hp (List.getElem?_eq_getElem hk)⟩

theorem length_children (h : Shows s l) (hs : l.Sound) (hp : s.places[i]? = some p) {u : Tree}
    (hu : s.forest.subtreeAt p = some u) : u.children.length = (l.children i).length := by
  have hk : ∀ k, k < u.children.length ↔ k < (l.children i).length := by
    intro k
    rw [← h.nodeAt?_child_ne_none_iff hs hp, Forest.nodeAt?_child, hu, Option.bind_some,
      Rose.labelAt_cons]
    by_cases hlt : k < u.children.length
    · rw [List.getElem?_eq_getElem hlt]
      exact iff_of_true hlt (Option.some_ne_none _)
    · rw [List.getElem?_eq_none (Nat.le_of_not_lt hlt)]
      exact iff_of_false hlt (not_not_intro rfl)
  have hle := hk u.children.length
  have hge := hk (l.children i).length
  omega

theorem exists_subtreeAt (h : Shows s l) (hp : s.places[i]? = some p) :
    ∃ u, s.forest.subtreeAt p = some u :=
  Forest.nodeAt?_ne_none_iff.mp ((h.mem_places p).mp (List.mem_of_getElem? hp))

/-! ### Growth -/

theorem empty : Shows {} {} :=
  ⟨rfl, .nil, fun _ => iff_of_false List.not_mem_nil (not_not_intro rfl),
    fun _ _ h => (by cases h), fun _ _ h => (by cases h), fun _ _ _ _ h => (by cases h)⟩

section

variable {s' : Numbered} {l' : Links} {new : Place} {label : Node}

theorem getElem?_places_concat (h : Shows s l) (new : Place) (i : Nat) :
    (s.places ++ [new])[i]? = if i = l.size then some new else s.places[i]? := by
  rw [← h.length_places]
  exact getElem?_concat_eq_ite s.places new i

/-- A node that is in neither of the lists of children yet takes a place where nothing stands. -/
theorem concat (h : Shows s l) (places : s'.places = s.places ++ [new])
    (free : s.forest.nodeAt? new = none)
    (nodes : ∀ q, s'.forest.nodeAt? q = if q = new then some label else s.forest.nodeAt? q)
    (size : l'.size = l.size + 1)
    (labels : ∀ i, l'.label? i = if i = l.size then some label else l.label? i)
    (top : ∀ i p, (s.places ++ [new])[i]? = some p → l'.parent? i = none → p.path = [])
    (child : ∀ i j k p, (s.places ++ [new])[i]? = some p → (l'.children i)[k]? = some j →
      (s.places ++ [new])[j]? = some (p.child k)) : Shows s' l' where
  length_places := by
    rw [places, size, ← h.length_places]
    exact List.length_append
  nodup := by
    rw [places, List.nodup_append]
    refine ⟨h.nodup, by simp, fun q hq r hr e => ?_⟩
    rw [e, List.mem_singleton.mp hr, h.mem_places] at hq
    exact hq free
  mem_places := by
    intro q
    rw [places, List.mem_append, List.mem_singleton, h.mem_places, nodes]
    split
    · next hq => exact iff_of_true (.inr hq) (Option.some_ne_none label)
    · next hq => exact or_iff_left hq
  label := by
    intro i q hq
    rw [places, h.getElem?_places_concat] at hq
    rw [nodes, labels]
    by_cases hi : i = l.size
    · rw [if_pos hi] at hq
      rw [if_pos (Option.some.inj hq).symm, if_pos hi]
    · rw [if_neg hi] at hq
      have hne : q ≠ new := by
        rintro rfl
        exact (h.mem_places q).mp (List.mem_of_getElem? hq) free
      rw [if_neg hne, if_neg hi, h.label i q hq]
  top := places ▸ top
  child := places ▸ child

end

theorem create (h : Shows s l) (hs : l.Sound) (label : Node) :
    Shows (s.grow (.create label)) (l.create label) := by
  have hget := h.getElem?_places_concat s.forest.nextRoot
  refine h.concat rfl s.forest.nodeAt?_nextRoot (s.forest.nodeAt?_concat_node label)
    (Links.size_create label l) (Links.label?_create label l) ?_ ?_
  · intro i p hp hi
    rw [Links.parent?_create] at hi
    rw [hget] at hp
    split at hp
    · rw [← Option.some.inj hp]
      rfl
    · exact h.top i p hp hi
  · intro i j k p hp hk
    rw [Links.children_create] at hk
    rw [hget] at hp ⊢
    have hm := List.mem_of_getElem? hk
    have hi := Links.lt_size_of_mem_children hm
    have hj := Links.lt_size_of_parent ((hs.mem_children i j).mp hm)
    rw [if_neg (Nat.ne_of_lt hi)] at hp
    rw [if_neg (Nat.ne_of_lt hj)]
    exact h.child i j k p hp hk

theorem addChild (h : Shows s l) (hs : l.Sound) (hp : s.places[i]? = some p) (beats : Int) :
    Shows (s.grow (.addChild i beats)) (l.addChild i beats) := by
  have hi := h.lt_size hp
  obtain ⟨u, hu⟩ := h.exists_subtreeAt hp
  have hgrow : s.grow (.addChild i beats) =
      ⟨s.forest.addChild beats p, s.places ++ [p.child (l.children i).length]⟩ := by
    rw [grow, hp, Option.elim_some, Forest.nextChild_of_subtreeAt hu, h.length_children hs hp hu]
  have hget := h.getElem?_places_concat (p.child (l.children i).length)
  have hlen := h.length_children hs hp hu
  rw [hgrow]
  refine h.concat rfl ?_ ?_ (Links.size_addChild i beats l) (Links.label?_addChild i beats l) ?_ ?_
  · exact Forest.nodeAt?_child_of_le hu (Nat.le_of_eq hlen)
  · exact hlen ▸ Forest.nodeAt?_addChild hu beats
  · intro a q hq ha
    rw [hget] at hq
    rw [Links.parent?_addChild] at ha
    by_cases hsize : a = l.size
    · rw [if_pos hsize] at ha
      cases ha
    · rw [if_neg hsize] at hq ha
      exact h.top a q hq ha
  · intro a b k q hq hk
    rw [Links.children_addChild hi] at hk
    rw [hget] at hq ⊢
    have hold : (l.children a)[k]? = some b → (if b = l.size then
        some (p.child (l.children i).length) else s.places[b]?) = some (q.child k) := by
      intro hk
      have hm := List.mem_of_getElem? hk
      have ha := Links.lt_size_of_mem_children hm
      have hb := Links.lt_size_of_parent ((hs.mem_children a b).mp hm)
      rw [if_neg (Nat.ne_of_lt ha)] at hq
      rw [if_neg (Nat.ne_of_lt hb)]
      exact h.child a b k q hq hk
    by_cases ha : a = i
    · subst ha
      rw [if_pos rfl, getElem?_concat_eq_ite] at hk
      by_cases hlast : k = (l.children a).length
      · rw [if_pos hlast] at hk
        rw [if_neg (Nat.ne_of_lt hi), hp] at hq
        rw [if_pos (Option.some.inj hk).symm, hlast, Option.some.inj hq]
      · rw [if_neg hlast] at hk
        exact hold hk
    · rw [if_neg ha] at hk
      exact hold hk

/-- **A step of growth keeps what a forest shows.** -/
theorem grow (h : Shows s l) (hs : l.Sound) (step : Growth) :
    Shows (s.grow step) (l.grow step) := by
  cases step with
  | create label => exact h.create hs label
  | addChild i beats =>
    rw [Links.grow]
    by_cases hi : i < l.size
    · obtain ⟨p, hp⟩ := h.exists_place hi
      rw [if_pos hi]
      exact h.addChild hs hp beats
    · have hn : s.places[i]? = none :=
        List.getElem?_eq_none (h.length_places ▸ Nat.le_of_not_lt hi)
      rw [if_neg hi, Numbered.grow, hn]
      exact h

/-! ### What is read off a place -/

theorem parent? (h : Shows s l) (hs : l.Sound) (hp : s.places[i]? = some p) :
    p.parent? = (l.parent? i).bind fun j => s.places[j]? := by
  cases hparent : l.parent? i with
  | none =>
    rw [Place.parent?, h.top i p hp hparent]
    rfl
  | some j =>
    obtain ⟨q, k, hq, -, rfl⟩ := h.exists_child hs hp hparent
    rw [Place.parent?_child, Option.bind_some, hq]

theorem root (h : Shows s l) (hs : l.Sound) {js : List Nat} (ha : l.Ancestors i js)
    (hp : s.places[i]? = some p) : s.places[l.root i]? = some p.root := by
  induction ha generalizing p with
  | @top i none =>
    rw [hs.root_of_none i none, hp]
    refine congrArg some ?_
    obtain ⟨t, path⟩ := p
    obtain rfl : path = [] := h.top i _ hp none
    rfl
  | @up i j js parent _ ih =>
    obtain ⟨q, k, hq, -, rfl⟩ := h.exists_child hs hp parent
    rw [hs.root_of_parent j i parent, ih hq, Place.root_child]

theorem path (h : Shows s l) (hs : l.Sound) {address : Address} (ha : l.Path i address)
    (hp : s.places[i]? = some p) : p.path = address := by
  induction ha generalizing p with
  | @top i none => exact h.top i p hp none
  | @up i j k address parent found above ih =>
    obtain ⟨hk, he, -⟩ := List.idxOf?_eq_some_iff.mp found
    obtain ⟨q, -, hq, -, -⟩ := h.exists_child hs hp parent
    have hplace := h.child j i k q hq (List.getElem?_eq_some_iff.mpr ⟨hk, he⟩)
    rw [Option.some.inj (hp.symm.trans hplace), Place.path_child, ih hq]

/-- The walk below a place comes to a node, which has children or not. -/
def Meets (s : Numbered) (l : Links) (i : Nat) (entry : Place × Tree) : Prop :=
  s.places[i]? = some entry.1 ∧ (l.children i = [] ↔ entry.2.isLeaf = true)

/-- The walks below some places come to what the walk through their nodes comes to. -/
theorem walk_through (h : Shows s l) (hs : l.Sound) {is ns : List Nat} (hw : l.Walk is ns)
    {ps : List Place} (hps : List.Forall₂ (fun i p => s.places[i]? = some p) is ps) :
    List.Forall₂ (Meets s l) ns (ps.flatMap s.forest.placesBelow) := by
  induction hw generalizing ps with
  | nil =>
    cases hps
    exact .nil
  | @cons i is ns ms down rest ihd ihr =>
    cases hps with
    | @cons _ p _ ps hp hps =>
      obtain ⟨u, hu⟩ := h.exists_subtreeAt hp
      have hlen := h.length_children hs hp hu
      have hbelow : List.Forall₂ (fun i p => s.places[i]? = some p) (l.children i)
          ((List.range u.children.length).map p.child) := by
        refine List.forall₂_iff_get.mpr ⟨by simp [hlen], fun k hk _ => ?_⟩
        rw [List.get_eq_getElem, List.get_eq_getElem, List.getElem_map, List.getElem_range]
        exact h.child i _ k p hp (List.getElem?_eq_getElem hk)
      rw [List.flatMap_cons, Forest.placesBelow_of_subtreeAt hu]
      refine List.rel_append (.cons ⟨hp, ?_⟩ (ihd hbelow)) (ihr hps)
      rw [Rose.isLeaf, List.isEmpty_iff, ← List.length_eq_zero_iff, ← List.length_eq_zero_iff, hlen]

/-- **The walk below a place comes to what the walk from its node comes to.** -/
theorem walk (h : Shows s l) (hs : l.Sound) {ns : List Nat} (hw : l.Walk [i] ns)
    (hp : s.places[i]? = some p) : List.Forall₂ (Meets s l) ns (s.forest.placesBelow p) := by
  have hall := h.walk_through hs hw (.cons hp .nil)
  rwa [List.flatMap_singleton] at hall

end Shows

/-- **A forest shows the linked nodes that have grown in the same way.** -/
theorem shows_grown (steps : List Growth) : Shows (grown steps) (Links.grown steps) := by
  induction steps using List.reverseRecOn with
  | nil => exact .empty
  | append_singleton steps step ih =>
    rw [grown_concat, Links.grown_concat]
    exact ih.grow (Links.sound_grown steps) step

/-- What a forest shows at the place of a node: what the node carries, the places of its parent and
its root, as many nodes above it as it has, its path, and the walks to the nodes below it and to the
leaves among them. -/
structure Reads (s : Numbered) (l : Links) (i : Nat) (js : List Nat) (path : Address)
    (ns : List Nat) (p : Place) : Prop where
  label : s.forest.nodeAt? p = l.label? i
  parent : p.parent? = (l.parent? i).bind fun j => s.places[j]?
  root : s.places[l.root i]? = some p.root
  depth : p.depth = js.length
  path : p.path = path
  nodes : List.Forall₂ (fun n entry => s.places[n]? = some entry.1) ns (s.forest.placesBelow p)
  leaves : List.Forall₂ (fun n entry => s.places[n]? = some entry.1)
    (ns.filter fun n => l.children n = [])
    ((s.forest.placesBelow p).filter fun entry => entry.2.isLeaf)

theorem Shows.reads {s : Numbered} {l : Links} {i : Nat} {js : List Nat} {path : Address}
    {ns : List Nat} {p : Place} (h : Shows s l) (hs : l.Sound) (hp : s.places[i]? = some p)
    (hr : l.Rooted i js path) (hw : l.Walked i ns) : s.Reads l i js path ns p := by
  have hpath : p.path = path := h.path hs ((hr.path path).mpr rfl) hp
  have hwalk := h.walk hs ((hw.walk ns).mpr rfl) hp
  have hleaf : Relator.LiftFun (Meets s l) (· ↔ ·) (fun n => decide (l.children n = []) = true)
      fun entry => entry.2.isLeaf = true := fun n entry hm => decide_eq_true_iff.trans hm.2
  exact
    { label := h.label i p hp
      parent := h.parent? hs hp
      root := h.root hs ((hr.ancestors js).mpr rfl) hp
      depth := (congrArg List.length hpath).trans hr.length_path
      path := hpath
      nodes := hwalk.imp fun n entry hm => hm.1
      leaves := (List.rel_filter hleaf hwalk).imp fun n entry hm => hm.1 }

end Numbered

/-- **Linked nodes that have grown make trees, and a forest shows them.** However nodes are created
and given children, a node is a child of its parent and of no other node, children are in the order
of their creation, and a new one comes last. The loop over the parents of a node ends, in the root
that the node keeps; the path has a number for every node above it, and taking the children with
these numbers leads from the root back to the node, so that no two nodes of a tree have the same
path. The walk from a node comes to all nodes below it, to nothing twice, to every node before its
children, and to these in order. A forest that has grown in the same way has one place for every
node, and shows the same parents, roots, depths, paths and walks. -/
theorem growth_structure (steps : List Growth) :
    let l := Links.grown steps
    let s := Numbered.grown steps
    (∀ i j, j ∈ l.children i ↔ l.parent? j = some i) ∧
    (∀ i, (l.children i).Pairwise (· < ·)) ∧
    (∀ i < l.size, ∀ beats, (Links.grown (steps ++ [.addChild i beats])).children i =
      l.children i ++ [l.size]) ∧
    (∀ i j path, l.Path i path → l.Path j path → l.root i = l.root j → i = j) ∧
    (s.places.Nodup ∧ ∀ p, p ∈ s.places ↔ s.forest.nodeAt? p ≠ none) ∧
    ∀ i < l.size, ∃ p js path ns, s.places[i]? = some p ∧ l.Rooted i js path ∧ l.Walked i ns ∧
      s.Reads l i js path ns p := by
  intro l s
  have hs : l.Sound := Links.sound_grown steps
  have h : s.Shows l := Numbered.shows_grown steps
  refine ⟨hs.mem_children, hs.ordered, fun i hi beats => ?_, fun i j path => hs.eq_of_path,
    ⟨h.nodup, h.mem_places⟩, fun i hi => ?_⟩
  · rw [Links.grown_concat, Links.grow, if_pos hi, Links.children_addChild hi, if_pos rfl]
  obtain ⟨p, hp⟩ := h.exists_place hi
  obtain ⟨js, path, hr⟩ := hs.exists_rooted i
  obtain ⟨ns, hw⟩ := hs.exists_walked i
  exact ⟨p, js, path, ns, hp, hr, hw, h.reads hs hp hr hw⟩

/-- Two trees that grow by turns. The first one has two children of one weight, and a node below the
first of them, which is the last one to come. -/
def byTurns : List Growth :=
  [.create { duration := .ofNat 4 }, .create { duration := .ofNat 3 }, .addChild 0 1,
    .addChild 1 2, .addChild 0 1, .addChild 2 1]

theorem growth_structure_byTurns :
    let l := Links.grown byTurns
    let s := Numbered.grown byTurns
    (l.Rooted 5 [2, 0] [0, 0] ∧ l.Walked 5 [5] ∧ s.Reads l 5 [2, 0] [0, 0] [5] ⟨0, [0, 0]⟩) ∧
      l.Rooted 0 [] [] ∧ l.Walked 0 [0, 2, 5, 4] ∧ s.Reads l 0 [] [] [0, 2, 5, 4] ⟨0, []⟩ := by
  intro l s
  obtain ⟨-, -, -, -, -, h⟩ := growth_structure byTurns
  have last : l.Walk [5] [5] := @Links.Walk.cons l 5 [] [] [] .nil .nil
  have second : l.Walk [4] [4] := @Links.Walk.cons l 4 [] [] [] .nil .nil
  have both : l.Walk [2, 4] [2, 5, 4] := @Links.Walk.cons l 2 [4] [5] [4] last second
  constructor
  · obtain ⟨p, js, path, ns, hp, hr, hw, hread⟩ := h 5 (by decide)
    obtain rfl : ⟨0, [0, 0]⟩ = p := Option.some.inj hp
    obtain rfl : [2, 0] = js := (hr.ancestors _).mp (.up rfl (.up rfl (.top rfl)))
    obtain rfl : [0, 0] = path := hread.path
    obtain rfl : [5] = ns := (hw.walk _).mp last
    exact ⟨hr, hw, hread⟩
  · obtain ⟨p, js, path, ns, hp, hr, hw, hread⟩ := h 0 (by decide)
    obtain rfl : ⟨0, []⟩ = p := Option.some.inj hp
    obtain rfl : [] = js := (hr.ancestors _).mp (.top rfl)
    obtain rfl : [] = path := hread.path
    obtain rfl : [0, 2, 5, 4] = ns :=
      (hw.walk _).mp (@Links.Walk.cons l 0 [] [2, 5, 4] [] both .nil)
    exact ⟨hr, hw, hread⟩

end RhythmTree
