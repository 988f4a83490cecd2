import RhythmTree.Proofs.Containment
import RhythmTree.Proofs.Prefixes
import RhythmTree.Proofs.Records

/-!
# Normalizing again

Every subtree of a parsed tree is what its own normalization makes of it. A node that has got its
share has divided it already, and below a node that cannot be divided nothing has a duration, so
that there is nothing to divide. Offsets are laid out anew from the durations and the start of the
subtree, and these have stayed.

* `fill_fill`, `fill_zero`: filling in durations a second time, and where there are none.
* `Unscaled.scale_subtree`: **what scaling has left at a node is not scaled any further.**
* `placeAt_fill_placeAt`: laying out forgets the offsets before it.
* `Unscaled.normalize_subtree`: **every subtree of a normalized tree is normalized.**
* `renormalize_parsed`: **no normalization changes a parsed forest, and at a root it finds what was
  recorded about the root.**
-/

namespace RhythmTree

open BuilderState

/-- The node without its offset. -/
def Node.unplaced (n : Node) : Node := { n with offset := .zero }

/-- The node with nothing but its weight. -/
def Node.weighed (n : Node) : Node := { beats := n.beats }

namespace Tree

/-! ### Durations -/

theorem weights_fillShares (whole : Duration) (total : Nat) (ts : List Tree) :
    weights (fillShares whole total ts) = weights ts := by
  rw [weights, weights]
  induction ts with
  | nil => rfl
  | cons t rest ih => rw [fillShares, List.map_cons, List.map_cons, ih, label_fill]

theorem totalWeight_fillShares (whole : Duration) (total : Nat) (ts : List Tree) :
    totalWeight (fillShares whole total ts) = totalWeight ts := by
  induction ts with
  | nil => rfl
  | cons t rest ih => rw [fillShares, totalWeight, totalWeight, ih, label_fill]

/-- Of two durations that are filled in, the second one stays. -/
theorem fill_fill (t : Tree) (d e : Duration) : fill e (fill d t) = fill e t := by
  have shares : ∀ ts : List Tree, (∀ t ∈ ts, ∀ d e, fill e (fill d t) = fill e t) →
      ∀ (d e : Duration) (total : Nat),
        fillShares e total (fillShares d total ts) = fillShares e total ts := by
    intro ts
    induction ts with
    | nil => intro _ d e total; rfl
    | cons t rest ih =>
      intro ht d e total
      rw [fillShares, fillShares, fillShares, label_fill, ht t (by simp),
        ih fun u hu => ht u (by simp [hu])]
  induction t using Rose.induction generalizing d e with
  | node n ts ih =>
    rw [fill, fill, fill]
    by_cases hd : divisible ts = true
    · have hd' : divisible (fillShares d (totalWeight ts) ts) = true := by
        rwa [divisible, weights_fillShares]
      rw [if_pos hd, if_pos hd', if_pos hd, totalWeight_fillShares, shares ts ih]
    · rw [if_neg hd, if_neg hd]

/-- Where nothing lasts for any time, there is nothing to divide. -/
theorem fill_zero {t : Tree} (h : ∀ p n, t.labelAt p = some n → n.duration = .zero) :
    fill .zero t = t := by
  have shares : ∀ (ts : List Tree) (total : Nat), (∀ t ∈ ts, fill .zero t = t) →
      fillShares .zero total ts = ts := by
    intro ts total
    induction ts with
    | nil => intro _; rfl
    | cons t rest ih =>
      intro ht
      rw [fillShares, Duration.zero_share, ht t (by simp), ih fun u hu => ht u (by simp [hu])]
  induction t using Rose.induction with
  | node n ts ih =>
    have hn : n.duration = .zero := h [] n rfl
    have hts : ∀ t ∈ ts, fill .zero t = t := by
      intro t ht
      obtain ⟨i, hi⟩ := List.getElem?_of_mem ht
      refine ih t ht fun p m hm => h (i :: p) m ?_
      rw [Rose.labelAt_cons, Rose.children_node, hi]
      exact hm
    rw [fill, shares ts _ hts, ite_self, ← hn]

variable {t u v : Tree} {p : Address}

/-- **What scaling has left at a node is not scaled any further.** -/
theorem Unscaled.scale_subtree (h : t.Unscaled) (hu : t.subtreeAt p = some u)
    (hv : (scale t).subtreeAt p = some v) : scale v = v := by
  by_cases hp : t.Divided p
  · -- the node has got its share, and divides it in the same way again
    obtain ⟨d, -, hs⟩ := subtreeAt_fill_of_divided hu hp t.label.duration
    obtain rfl := Option.some.inj (hv.symm.trans hs)
    rw [scale, label_fill, fill_fill]
  · -- scaling has not come as far as the node, which lies below the root
    obtain rfl := Option.some.inj
      (hv.symm.trans (subtreeAt_fill_of_not_divided hu hp t.label.duration))
    have hne : p ≠ [] := fun he => hp (he ▸ divided_nil t)
    have hz : ∀ q n, v.labelAt q = some n → n.duration = .zero := by
      intro q n hn
      refine h (p ++ q) n (by simp [hne]) ?_
      rw [Rose.labelAt_append, hu]
      exact hn
    rw [scale, hz [] v.label rfl, fill_zero hz]

/-! ### Offsets -/

theorem placeAt_unplaced (t : Tree) (a : Duration) :
    placeAt a (t.map Node.unplaced) = placeAt a t := by
  have h := @map_placeAt_eq id Node.unplaced id (fun _ _ => rfl) (fun _ _ => rfl) t a
  rw [Rose.map_id] at h
  exact h.symm

/-- Laying out forgets the offsets before it. -/
theorem placeAt_fill_placeAt (t : Tree) (a b d : Duration) :
    placeAt b (fill d (placeAt a t)) = placeAt b (fill d t) := by
  have hf : ∀ u, fill d (u.map Node.unplaced) = (fill d u).map Node.unplaced := fun u =>
    fill_map (g := Node.unplaced) (h := id) (fun _ => rfl) (fun _ _ _ => rfl) (fun _ _ => rfl) u d
  rw [← placeAt_unplaced, ← hf, map_placeAt (fun _ _ => rfl), hf, placeAt_unplaced]

/-! ### Both -/

/-- **Every subtree of a normalized tree is normalized.** -/
theorem Unscaled.normalize_subtree (h : t.Unscaled) (hu : (normalize t).subtreeAt p = some u) :
    normalize u = u := by
  obtain ⟨_, a, v, hw, hv, rfl⟩ := exists_of_subtreeAt_normalize hu
  have hs : fill v.label.duration v = v := h.scale_subtree hw hv
  rw [normalize, layOut, scale, label_fill, label_placeAt]
  dsimp only
  rw [placeAt_fill_placeAt, hs]

theorem indivisible_normalize (base : Address) (t : Tree) :
    indivisible base (normalize t) = indivisible base t := by
  have hw : ∀ u, indivisible base (u.map Node.weighed) = indivisible base u := fun u =>
    indivisible_map (g := Node.weighed) (fun _ => rfl) base u
  rw [← hw, map_normalize (fun _ _ => rfl) (fun _ _ => rfl), hw]

/-- The issues that the messages about a root become. -/
def weightIssues (t : Tree) : List Issue :=
  (indivisible [] t).map fun problem => (Finding.indivisible problem).issue

end Tree

/-! ### Parsed forests -/

theorem run_of_build {strict : Bool} {ts : List Token} {score : Score}
    (h : build strict ts = .ok score) : ∃ s, run strict {} 0 ts = .ok s ∧ s.toScore = score := by
  unfold build at h
  cases hr : run strict {} 0 ts with
  | ok s =>
    rw [hr] at h
    exact ⟨s, rfl, Except.ok.inj h⟩
  | error halted =>
    rw [hr] at h
    cases h

/-- No normalization of a node changes a forest of normalized trees. -/
theorem Forest.modifyAt_normalize {f : Forest} (h : ∀ t ∈ f, t.Unscaled) (p : Place) :
    modifyAt (f.map Tree.normalize) Tree.normalize p = f.map Tree.normalize := by
  have hid : (f.map Tree.normalize).modify p.tree (Rose.modifyAt Tree.normalize p.path) =
      (f.map Tree.normalize).modify p.tree id := by
    refine Rose.modify_congr fun t ht => ?_
    obtain ⟨r, hr, rfl⟩ := List.mem_map.mp (List.mem_of_getElem? ht)
    have hc : Rose.modifyAt Tree.normalize p.path (Tree.normalize r) =
        Rose.modifyAt id p.path (Tree.normalize r) :=
      Rose.modifyAt_congr fun u hu => (h r hr).normalize_subtree hu
    exact hc.trans (Rose.modifyAt_eq_self (fun _ => rfl) p.path _)
  rw [modifyAt, hid, List.modify_id]

/-- **A parsed forest is a fixed point of normalization.** Whatever the weights, the normalization
of any node changes nothing in the forest. The issues about weights are those about the first root,
then those about the second and so on, as they were found in the trees of the builder, and the
normalization of a root of the score finds the same again. -/
theorem renormalize_parsed {strict : Bool} {raw : Document} {score : Score}
    (h : parse strict raw = .ok score) :
    (∀ p, score.forest.modifyAt Tree.normalize p = score.forest) ∧
    ∃ ts s, tokensOf raw = .ok ts ∧ run strict {} 0 ts = .ok s ∧
      score.report.withCode "BEAT_WEIGHT" = s.forest.flatMap Tree.weightIssues ∧
      score.forest.length = s.forest.length ∧
      ∀ (i : Nat) (root : Tree), score.forest[i]? = some root →
        ∃ before, s.forest[i]? = some before ∧ root = before.normalize ∧
          Tree.indivisible [] root = Tree.indivisible [] before := by
  obtain ⟨ts, ht, hb⟩ := exists_tokens_of_parse h
  obtain ⟨s, hr, rfl⟩ := run_of_build hb
  have hissues := withCode_weight_build (build_lenient_of_build hb)
  obtain ⟨-, rfl⟩ : _ ∧ reached ts = s := run_lenient_eq_ok.mp (run_lenient_of_run hr)
  rw [forest_toScore]
  have hu : ∀ t ∈ (reached ts).forest, t.Unscaled := fun t ht => (grown_reached ts t ht).unscaled
  refine ⟨Forest.modifyAt_normalize hu, ts, _, ht, hr, ?_, List.length_map _, fun i root hi => ?_⟩
  · rw [hissues, indivisible, List.map_flatMap]
    exact List.flatMap_congr fun t _ => List.map_map
  · rw [List.getElem?_map] at hi
    obtain ⟨before, hbefore, rfl⟩ := Option.map_eq_some_iff.mp hi
    exact ⟨before, hbefore, rfl, before.indivisible_normalize []⟩

open Token in
/-- A tree with a node whose children cannot divide it, and nodes below these children. -/
def weightlessStream : List Token :=
  [root (.ofNat 4), inner 3 (.below 0), inner 2 (.below 1), leaf 1 (.below 2), leaf 5 (.below 2),
    leaf (-1) (.below 1), leaf 1 (.below 0)]

theorem renormalize_parsed_weightlessStream :
    ∃ score, parse true (.list (Token.toDocuments weightlessStream)) = .ok score ∧
      score.forest.modifyAt Tree.normalize ⟨0, [0, 0]⟩ = score.forest ∧
      (score.report.withCode "BEAT_WEIGHT").length = 1 ∧
      ∃ root before, score.forest[0]? = some root ∧ root = Tree.normalize before ∧
        Tree.indivisible [] root = Tree.indivisible [] before := by
  have hp : parse true (.list (Token.toDocuments weightlessStream)) =
      .ok (reached weightlessStream).toScore := rfl
  obtain ⟨hfix, ts, s, -, -, -, -, hroots⟩ := renormalize_parsed hp
  obtain ⟨before, -, hnormal, hsame⟩ := hroots 0 _ rfl
  exact ⟨_, hp, hfix _, by decide +kernel, _, before, rfl, hnormal, hsame⟩

end RhythmTree
