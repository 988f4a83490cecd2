import Mathlib.Algebra.BigOperators.Group.List.Basic
import Mathlib.Data.List.Lex
import Mathlib.Data.Rat.Cast.Defs
import RhythmTree.Proofs.Addresses
import RhythmTree.Proofs.Layout

/-!
# Shares of a duration

What normalization gives to a node is a product along the way down to it: at every step the weight
of the node that is stepped to, over the sum of the weights of it and its siblings. The way must not
lead through a node whose children cannot divide it; behind such a node durations stay as they are.

* `portion`: the product. `Divided`: no node on the way is in the way.
* `subtreeAt_fill_of_divided`, `subtreeAt_fill_of_not_divided`: **what filling in durations leaves
  at an address.**
* `subtreeAt_placeAt`, `offset_child_placeAt`: what laying out leaves there.
* `mem_indivisible`, `pairwise_indivisible`: the nodes that are reported.
* `normalize_at`: all this for the normalization of any subtree of a tree, and that nothing else
  changes.
-/

namespace RhythmTree.Tree

/-! ### Nodes on the way -/

/-- The weights of all children of a node are positive. -/
def Divides (t : Tree) : Prop := ∀ c ∈ t.children, 0 < c.label.beats

theorem divisible_children_iff {t : Tree} : divisible t.children = true ↔ t.Divides := by
  rw [divisible, weights, List.all_map, List.all_eq_true]
  exact forall₂_congr fun c _ => decide_eq_true_iff

/-- All nodes on the way down to an address divide their durations among their children. -/
def Divided (t : Tree) (p : Address) : Prop :=
  ∀ (q : Address) (u : Tree), q <+: p → q ≠ p → t.subtreeAt q = some u → u.Divides

theorem divided_nil (t : Tree) : t.Divided [] := by
  intro q u hq hne
  exact absurd (List.prefix_nil.mp hq) hne

theorem divided_cons {t c : Tree} {i : Nat} {p : Address} (hc : t.children[i]? = some c) :
    t.Divided (i :: p) ↔ t.Divides ∧ c.Divided p := by
  constructor
  · intro h
    refine ⟨h [] t List.nil_prefix (List.cons_ne_nil i p).symm rfl, fun q u hq hne hu => ?_⟩
    refine h (i :: q) u ?_ (fun he => hne (List.cons.inj he).2) ?_
    · exact List.cons_prefix_cons.mpr ⟨rfl, hq⟩
    · exact Rose.subtreeAt_cons_eq_some_iff.mpr ⟨c, hc, hu⟩
  · rintro ⟨ht, h⟩ q u hq hne hu
    cases q with
    | nil => exact Option.some.inj hu ▸ ht
    | cons j q =>
      obtain ⟨rfl, hp⟩ := List.cons_prefix_cons.mp hq
      obtain ⟨d, hd, hu⟩ := Rose.subtreeAt_cons_eq_some_iff.mp hu
      obtain rfl : c = d := Option.some.inj (hc.symm.trans hd)
      exact h q u hp (fun he => hne (congrArg _ he)) hu

/-! ### Durations -/

/-- The part of the duration of a tree that goes to the node at an address: the product of the
weights on the way, each over the sum of the weights of all siblings. -/
def portion : Tree → Address → Rat
  | _, [] => 1
  | t, i :: p =>
    match t.children[i]? with
    | none => 0
    | some c => c.label.beats / (weights t.children).sum * portion c p

theorem portion_cons {t c : Tree} {i : Nat} (hc : t.children[i]? = some c) (p : Address) :
    portion t (i :: p) = c.label.beats / (weights t.children).sum * portion c p := by
  rw [portion, hc]

theorem totalWeight_eq_sum {ts : List Tree} (h : ∀ t ∈ ts, 0 < t.label.beats) :
    (totalWeight ts : Int) = (weights ts).sum := by
  induction ts with
  | nil => rfl
  | cons t rest ih =>
    have ht := h t (by simp)
    rw [weights, List.map_cons, List.sum_cons, totalWeight, Nat.cast_add,
      ih fun u hu => h u (by simp [hu]), weights]
    omega

theorem value_share_child {t c : Tree} (h : t.Divides) (hc : c ∈ t.children) (d : Duration) :
    (d.share c.label.beats.toNat (totalWeight t.children)).value =
      d.value * (c.label.beats / (weights t.children).sum) := by
  have hb : (c.label.beats.toNat : Int) = c.label.beats := Int.toNat_of_nonneg (h c hc).le
  show d.value * Rat.divInt _ _ = _
  rw [Rat.divInt_eq_div, hb, totalWeight_eq_sum h]

theorem children_fill (d : Duration) (t : Tree) :
    (fill d t).children =
      if divisible t.children then fillShares d (totalWeight t.children) t.children
      else t.children := by
  cases t
  rfl

theorem getElem?_fillShares (d : Duration) (total : Nat) (ts : List Tree) (i : Nat) :
    (fillShares d total ts)[i]? =
      ts[i]?.map fun c => fill (d.share c.label.beats.toNat total) c := by
  induction ts generalizing i with
  | nil => rfl
  | cons t rest ih =>
    rw [fillShares]
    cases i with
    | zero => rfl
    | succ i => exact ih i

/-- **A node that nothing is in the way of gets its portion of the duration.** -/
theorem subtreeAt_fill_of_divided {t u : Tree} {p : Address} (hu : t.subtreeAt p = some u)
    (h : t.Divided p) (d : Duration) :
    ∃ e : Duration, e.value = d.value * portion t p ∧ (fill d t).subtreeAt p = some (fill e u) := by
  induction p generalizing t d with
  | nil =>
    obtain rfl : t = u := Option.some.inj hu
    exact ⟨d, (mul_one d.value).symm, rfl⟩
  | cons i p ih =>
    obtain ⟨c, hc, hu⟩ := Rose.subtreeAt_cons_eq_some_iff.mp hu
    obtain ⟨ht, hp⟩ := (divided_cons hc).mp h
    have hm : c ∈ t.children := List.mem_of_getElem? hc
    obtain ⟨e, he, hs⟩ := ih hu hp (d.share c.label.beats.toNat (totalWeight t.children))
    refine ⟨e, ?_, ?_⟩
    · rw [he, value_share_child ht hm, portion_cons hc, mul_assoc]
    · rw [Rose.subtreeAt_cons, children_fill, if_pos (divisible_children_iff.mpr ht),
        getElem?_fillShares, hc]
      exact hs

/-- **A node behind one whose children cannot divide it stays as it is.** -/
theorem subtreeAt_fill_of_not_divided {t u : Tree} {p : Address} (hu : t.subtreeAt p = some u)
    (h : ¬ t.Divided p) (d : Duration) : (fill d t).subtreeAt p = some u := by
  induction p generalizing t d with
  | nil => exact absurd (divided_nil t) h
  | cons i p ih =>
    obtain ⟨c, hc, hu'⟩ := Rose.subtreeAt_cons_eq_some_iff.mp hu
    rw [divided_cons hc] at h
    rw [Rose.subtreeAt_cons, children_fill]
    by_cases ht : t.Divides
    · have hp : ¬ Divided c p := fun hp => h ⟨ht, hp⟩
      rw [if_pos (divisible_children_iff.mpr ht), getElem?_fillShares, hc]
      exact ih hu' hp _
    · rw [if_neg (fun hd => ht (divisible_children_iff.mp hd)), hc]
      exact hu'

/-! ### Offsets -/

/-- How long some siblings last together. -/
def totalDuration (ts : List Tree) : Duration := Duration.sum (ts.map fun t => t.label.duration)

theorem totalDuration_cons (t : Tree) (ts : List Tree) :
    totalDuration (t :: ts) = t.label.duration + totalDuration ts := Duration.sum_cons _ _

theorem label_placeAt (a : Duration) (t : Tree) :
    (placeAt a t).label = { t.label with offset := a } := by
  cases t
  rfl

theorem children_placeAt (a : Duration) (t : Tree) :
    (placeAt a t).children = placeFrom a t.children := by
  cases t
  rfl

theorem map_duration_placeFrom (a : Duration) (ts : List Tree) :
    (placeFrom a ts).map (fun t => t.label.duration) = ts.map fun t => t.label.duration := by
  induction ts generalizing a with
  | nil => rfl
  | cons t rest ih => rw [placeFrom, List.map_cons, List.map_cons, ih, label_placeAt]

theorem getElem?_placeFrom (a : Duration) (ts : List Tree) (i : Nat) :
    (placeFrom a ts)[i]? = ts[i]?.map (placeAt (a + totalDuration (ts.take i))) := by
  induction ts generalizing a i with
  | nil => rfl
  | cons t rest ih =>
    rw [placeFrom]
    cases i with
    | zero =>
      show some (placeAt a t) = some (placeAt (a + .zero) t)
      rw [Duration.add_zero]
    | succ i =>
      rw [List.getElem?_cons_succ, List.getElem?_cons_succ, ih, List.take_succ_cons,
        totalDuration_cons, Duration.add_assoc]

/-- Laying a tree out lays every subtree out somewhere. -/
theorem subtreeAt_placeAt {t u : Tree} {p : Address} (hu : t.subtreeAt p = some u) (a : Duration) :
    ∃ b, (placeAt a t).subtreeAt p = some (placeAt b u) := by
  induction p generalizing t a with
  | nil =>
    obtain rfl : t = u := Option.some.inj hu
    exact ⟨a, rfl⟩
  | cons i p ih =>
    obtain ⟨c, hc, hu⟩ := Rose.subtreeAt_cons_eq_some_iff.mp hu
    obtain ⟨b, hb⟩ := ih hu (a + totalDuration (t.children.take i))
    refine ⟨b, ?_⟩
    rw [Rose.subtreeAt_cons, children_placeAt, getElem?_placeFrom, hc]
    exact hb

/-- A child of a tree that is laid out starts where the siblings before it end. -/
theorem offset_child_placeAt {t c : Tree} {a : Duration} {i : Nat}
    (hc : (placeAt a t).children[i]? = some c) :
    c.label.offset = (placeAt a t).label.offset +
      totalDuration ((placeAt a t).children.take i) := by
  have hd := map_duration_placeFrom a t.children
  rw [children_placeAt] at hc ⊢
  rw [getElem?_placeFrom] at hc
  obtain ⟨c', -, rfl⟩ := Option.map_eq_some_iff.mp hc
  rw [label_placeAt, label_placeAt, totalDuration, totalDuration, List.map_take, List.map_take, hd]

/-- A subtree of a normalized tree is laid out, with the durations that scaling has left there. -/
theorem subtreeAt_normalize {t u : Tree} {p : Address} (hu : t.subtreeAt p = some u) :
    ∃ a v, (normalize t).subtreeAt p = some (placeAt a v) ∧ (scale t).subtreeAt p = some v := by
  have hs : ∃ v, (scale t).subtreeAt p = some v := by
    by_cases hp : t.Divided p
    · obtain ⟨e, -, he⟩ := subtreeAt_fill_of_divided hu hp t.label.duration
      exact ⟨_, he⟩
    · exact ⟨u, subtreeAt_fill_of_not_divided hu hp _⟩
  obtain ⟨v, hv⟩ := hs
  obtain ⟨a, ha⟩ := subtreeAt_placeAt hv (scale t).label.offset
  exact ⟨a, v, ha, hv⟩

/-- Every subtree of a normalized tree comes from a subtree of the tree. -/
theorem exists_of_subtreeAt_normalize {t u : Tree} {p : Address}
    (hu : (normalize t).subtreeAt p = some u) :
    ∃ w a v, t.subtreeAt p = some w ∧ (scale t).subtreeAt p = some v ∧ u = placeAt a v := by
  cases hw : t.subtreeAt p with
  | none =>
    have hm := congrArg (Option.map (Rose.map Node.beats)) hu
    rw [← Rose.subtreeAt_map, map_beats_normalize, Rose.subtreeAt_map, hw] at hm
    cases hm
  | some w =>
    obtain ⟨a, v, ha, hv⟩ := subtreeAt_normalize hw
    exact ⟨w, a, v, rfl, hv, Option.some.inj (hu.symm.trans ha)⟩

/-! ### Reports -/

/-- **Exactly the nodes are reported whose children cannot divide them.** -/
theorem mem_indivisible {t : Tree} {r : Address} {x : Indivisible} :
    x ∈ indivisible r t ↔ ∃ (p : Address) (u : Tree),
      t.subtreeAt p = some u ∧ ¬ u.Divides ∧ x = ⟨r ++ p, weights u.children⟩ := by
  rw [indivisible, List.mem_filterMap]
  constructor
  · rintro ⟨⟨p, u⟩, hp, hx⟩
    by_cases hu : divisible u.children = true
    · rw [if_pos hu] at hx
      cases hx
    · rw [if_neg hu] at hx
      exact ⟨p, u, Rose.mem_addressed.mp hp, fun hd => hu (divisible_children_iff.mpr hd),
        (Option.some.inj hx).symm⟩
  · rintro ⟨p, u, hp, hu, rfl⟩
    exact ⟨(p, u), Rose.mem_addressed.mpr hp,
      if_neg fun hd => hu (divisible_children_iff.mp hd)⟩

/-- **Every node is reported once, and in pre-order.** -/
theorem pairwise_indivisible (r : Address) (t : Tree) :
    ((indivisible r t).map Indivisible.path).Pairwise Rose.Precedes := by
  have ha := Rose.pairwise_addressed t
  rw [List.pairwise_map] at ha ⊢
  refine ha.filterMap _ fun e e' hlt x hx y hy => ?_
  have path_of : ∀ {e : Address × Tree} {x : Indivisible},
      (if divisible e.2.children then none else some ⟨r ++ e.1, weights e.2.children⟩) = some x →
        x.path = r ++ e.1 := by
    intro e x h
    split at h
    · cases h
    · exact (congrArg Indivisible.path (Option.some.inj h)).symm
  rw [path_of hx, path_of hy]
  exact List.Lex.append_left _ hlt r

/-! ### Normalization of a subtree -/

/-- **What the normalization of a subtree does to a tree.** Nothing but times below the node at `r`
changes. A node below it gets its portion of the duration if nothing is in the way, and keeps its
duration otherwise; the child of a node starts where the siblings before it end. The report names
exactly the nodes of the subtree whose children cannot divide them, each once and in pre-order, and
each message begins with the path of its node. -/
theorem normalize_at {whole t : Tree} {r : Address} (ht : whole.subtreeAt r = some t) :
    (∀ q, ¬ (r <+: q ∧ q ≠ r) → (Rose.modifyAt normalize r whole).labelAt q = whole.labelAt q) ∧
      (Rose.modifyAt normalize r whole).map (fun n => (n.beats, n.components)) =
        whole.map (fun n => (n.beats, n.components)) ∧
      (∀ p n, p ≠ [] → whole.labelAt (r ++ p) = some n →
        ∃ n', (Rose.modifyAt normalize r whole).labelAt (r ++ p) = some n' ∧
          (t.Divided p → n'.duration.value = t.label.duration.value * portion t p) ∧
          (¬ t.Divided p → n'.duration = n.duration)) ∧
      (∀ (p : Address) (u c : Tree) (i : Nat),
        (Rose.modifyAt normalize r whole).subtreeAt (r ++ p) = some u → u.children[i]? = some c →
          c.label.offset = u.label.offset + totalDuration (u.children.take i)) ∧
      ((indivisible r t).map Indivisible.path).Pairwise Rose.Precedes ∧
      (∀ x, x ∈ indivisible r t ↔ ∃ (p : Address) (u : Tree),
        t.subtreeAt p = some u ∧ (∃ c ∈ u.children, c.label.beats ≤ 0) ∧
          x = ⟨r ++ p, weights u.children⟩) ∧
      (∀ x ∈ indivisible r t, ∃ rest, x.message = pathText x.path ++ rest) := by
  have hsub : ∀ p, (Rose.modifyAt normalize r whole).subtreeAt (r ++ p) =
      (normalize t).subtreeAt p := by
    intro p
    rw [Rose.subtreeAt_modifyAt_append, ht]
    rfl
  refine ⟨?_, ?_, ?_, ?_, pairwise_indivisible r t, ?_, ?_⟩
  · intro q hq
    by_cases hr : r <+: q
    · obtain rfl : q = r := by
        by_contra hne
        exact hq ⟨hr, hne⟩
      have hl := hsub []
      rw [List.append_nil] at hl
      rw [Rose.labelAt, hl, Rose.labelAt, ht]
      exact congrArg some (label_normalize t)
    · exact Rose.labelAt_modifyAt_of_not_prefix hr whole
  · refine Rose.map_modifyAt_of_map_eq (fun u => ?_) r whole
    exact map_normalize (fun _ _ => rfl) (fun _ _ => rfl) u
  · intro p n _ hn
    rw [Rose.labelAt_append, ht, Option.bind_some] at hn
    obtain ⟨u, hu, rfl⟩ := Option.map_eq_some_iff.mp hn
    obtain ⟨a, v, ha, hv⟩ := subtreeAt_normalize hu
    refine ⟨(placeAt a v).label, by rw [Rose.labelAt, hsub, ha]; rfl, fun hp => ?_, fun hp => ?_⟩
    · obtain ⟨e, he, hs⟩ := subtreeAt_fill_of_divided hu hp t.label.duration
      obtain rfl := Option.some.inj (hv.symm.trans hs)
      rw [label_placeAt, label_fill]
      exact he
    · have hs := subtreeAt_fill_of_not_divided hu hp t.label.duration
      obtain rfl := Option.some.inj (hv.symm.trans hs)
      rw [label_placeAt]
  · intro p u c i hu hc
    rw [hsub] at hu
    obtain ⟨_, a, v, -, -, rfl⟩ := exists_of_subtreeAt_normalize hu
    exact offset_child_placeAt hc
  · intro x
    rw [mem_indivisible]
    simp only [Divides, not_forall, not_lt, exists_prop]
  · intro x _
    exact ⟨_, String.append_assoc⟩

/-- Four units divided between an inner node that can divide its share and one that cannot. -/
def halfDivisible : Tree :=
  .node { duration := .ofNat 4, offset := .ofNat 3 } [
    .node {} [.node {} [], .node { beats := 3 } []],
    .node { beats := 3 } [.node { beats := 2, duration := .ofNat 7 } [], .node { beats := 0 } []]]

/-- A tree with these four units below it and a second child. -/
def twoChildren : Tree :=
  .node { duration := .ofNat 12 } [halfDivisible, .node { beats := 5, duration := .ofNat 2 } []]

theorem normalize_at_halfDivisible :
    (Rose.modifyAt normalize [0] twoChildren).labelAt [1] = twoChildren.labelAt [1] ∧
      (∃ n, (Rose.modifyAt normalize [0] twoChildren).labelAt [0, 0, 1] = some n ∧
        n.duration.value = 3 / 4) ∧
      (∃ n, (Rose.modifyAt normalize [0] twoChildren).labelAt [0, 1, 0] = some n ∧
        n.duration = .ofNat 7) ∧
      ⟨[0, 1], [2, 0]⟩ ∈ indivisible [0] halfDivisible := by
  have ht : twoChildren.subtreeAt [0] = some halfDivisible := rfl
  obtain ⟨hframe, -, hdur, -, -, hmem, -⟩ := normalize_at ht
  have hd : halfDivisible.Divided [0, 1] := by
    rw [divided_cons rfl, divided_cons rfl, Divides, Divides]
    exact ⟨by decide, by decide, divided_nil _⟩
  have hn : ¬ halfDivisible.Divided [1, 0] := by
    rw [divided_cons rfl, divided_cons rfl, Divides, Divides]
    rintro ⟨-, h, -⟩
    exact absurd h (by decide)
  refine ⟨hframe [1] (by decide), ?_, ?_, ?_⟩
  · obtain ⟨n, hl, hv, -⟩ := hdur [0, 1] _ (by decide) rfl
    refine ⟨n, hl, ?_⟩
    rw [hv hd]
    decide +kernel
  · obtain ⟨n, hl, -, hk⟩ := hdur [1, 0] _ (by decide) rfl
    exact ⟨n, hl, hk hn⟩
  · exact (hmem _).mpr ⟨[1], _, rfl, ⟨.node { beats := 0 } [], by simp, by decide⟩, rfl⟩

end RhythmTree.Tree
