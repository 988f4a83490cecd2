import RhythmTree.Proofs.Addresses
import RhythmTree.Proofs.Timeline

/-!
# How trees grow

A builder starts every tree as a single node and changes it in two ways only: it adds leaves without
a duration below its nodes, and it adds components to them.

* `Tree.Grown`: the trees that come about like this.
* `Tree.Grown.holdsBelow`: what holds of all their nodes below the root.
* `grown_perform`, `grown_reached`: **all trees behind a stream have grown.**
* `Tree.Grown.unscaled`: **before normalization, no node below a root has a duration.**
-/

namespace RhythmTree

open BuilderState

/-! ### Trees -/

namespace Tree

/-- Trees that have grown from a single node. -/
inductive Grown : Tree → Prop
  | single (d a : Duration) : Grown (ofDuration d a)
  | leaf {t : Tree} (h : Grown t) (beats : Int) (p : Address) :
      Grown (Rose.modifyAt (Rose.addLeaf { beats := beats }) p t)
  | component {t : Tree} (h : Grown t) (c : Component) (p : Address) :
      Grown (Rose.modifyAt (addComponent c) p t)

/-- Every node below the root has a property. -/
def HoldsBelow (P : Node → Prop) (t : Tree) : Prop := ∀ p n, p ≠ [] → t.labelAt p = some n → P n

/-- No node below the root has a duration. -/
def Unscaled (t : Tree) : Prop := ∀ p n, p ≠ [] → t.labelAt p = some n → n.duration = .zero

/-- A change keeps a property of the nodes if every node that it leaves has the property or had it
before. -/
theorem HoldsBelow.modifyAt {P : Node → Prop} {t : Tree} (h : t.HoldsBelow P) {change : Tree → Tree}
    (hc : ∀ (u : Tree) q n, (change u).labelAt q = some n →
      P n ∨ ∃ m, u.labelAt q = some m ∧ (P m → P n)) (p : Address) :
    HoldsBelow P (Rose.modifyAt change p t) := by
  intro q n hq hn
  have hr := Rose.rel_labelAt_modifyAt
    (R := fun x y => ∀ n, y = some n → P n ∨ ∃ m, x = some m ∧ (P m → P n))
    (fun _ n hn => .inr ⟨n, hn, id⟩) hc p q t
  rcases hr n hn with hp | ⟨m, hm, hi⟩
  · exact hp
  · exact hi (h q m hq hm)

/-- A property that new nodes have and that components do not touch holds below every root. -/
theorem Grown.holdsBelow {P : Node → Prop} {t : Tree} (h : t.Grown)
    (new : ∀ beats, P { beats := beats })
    (same : ∀ n cs, P n → P { n with components := cs }) : t.HoldsBelow P := by
  induction h with
  | single d a =>
    intro p n hp hn
    cases p with
    | nil => exact absurd rfl hp
    | cons i p => cases hn
  | leaf _ beats p ih =>
    refine ih.modifyAt (fun u q n hn => ?_) p
    rw [Rose.labelAt_addLeaf] at hn
    split at hn
    · obtain rfl := Option.some.inj hn
      exact .inl (new beats)
    · exact .inr ⟨n, hn, id⟩
  | component _ c p ih =>
    refine ih.modifyAt (fun u q n hn => .inr ?_) p
    cases u with
    | node m ts =>
      cases q with
      | nil =>
        cases hn
        exact ⟨m, rfl, same m _⟩
      | cons i q => exact ⟨n, hn, id⟩

/-- **Before normalization, no node below a root has a duration.** -/
theorem Grown.unscaled {t : Tree} (h : t.Grown) : t.Unscaled :=
  h.holdsBelow (fun _ => rfl) fun _ _ hn => hn

end Tree

/-! ### Forests -/

namespace Forest

/-- All trees of the forest have grown from single nodes. -/
def Grown (f : Forest) : Prop := ∀ t ∈ f, t.Grown

theorem Grown.modifyAt {f : Forest} (h : f.Grown) {change : Tree → Tree} {p : Place}
    (hc : ∀ t : Tree, t.Grown → Tree.Grown (Rose.modifyAt change p.path t)) :
    Grown (f.modifyAt change p) := by
  intro t ht
  obtain ⟨i, hi⟩ := List.getElem?_of_mem ht
  rw [Forest.modifyAt, List.getElem?_modify] at hi
  obtain ⟨u, hu, rfl⟩ := Option.map_eq_some_iff.mp hi
  have hg := h u (List.mem_of_getElem? hu)
  split
  · exact hc u hg
  · exact hg

theorem Grown.addChild {f : Forest} (h : f.Grown) (beats : Int) (p : Place) :
    Grown (f.addChild beats p) := h.modifyAt fun _ ht => ht.leaf beats p.path

theorem Grown.addComponent {f : Forest} (h : f.Grown) (c : Component) (p : Place) :
    Grown (f.addComponent c p) := h.modifyAt fun _ ht => ht.component c p.path

theorem Grown.concat {f : Forest} (h : f.Grown) (d a : Duration) :
    Grown (f ++ [.ofDuration d a]) := by
  intro t ht
  rcases List.mem_append.mp ht with ht | ht
  · exact h t ht
  · rw [List.mem_singleton.mp ht]
    exact .single d a

end Forest

/-! ### Instructions -/

namespace BuilderState

variable {s : BuilderState}

theorem forest_stepBack (index : Nat) (back : Duration) (s : BuilderState) :
    (s.stepBack index back).forest = s.forest := by
  unfold stepBack
  split <;> rfl

theorem forest_placeRoot (index : Nat) (s : BuilderState) :
    (s.placeRoot index).2.forest = s.forest := by
  unfold placeRoot
  split
  · rfl
  · rfl
  · split
    · rfl
    · exact forest_stepBack index _ _

theorem forest_closeLevels (index depth : Nat) (s : BuilderState) :
    (s.closeLevels index depth).forest = s.forest := by
  unfold closeLevels
  split
  · dsimp only
    split <;> rfl
  · rfl

theorem grown_addRoot (h : s.forest.Grown) (index : Nat) (d : Duration) :
    (s.addRoot index d).forest.Grown := by
  show Forest.Grown ((s.placeRoot index).2.forest ++ [_])
  rw [forest_placeRoot]
  exact h.concat d _

theorem grown_attachNode (h : s.forest.Grown) (index : Nat) (identifier : String) (beats : Int)
    (level : Level) : (s.attachNode index identifier beats level).2.forest.Grown := by
  rw [← forest_closeLevels index level.outer] at h
  unfold attachNode attachChild
  split
  · exact h
  · exact h.addChild beats _

theorem grown_addInner (h : s.forest.Grown) (index : Nat) (identifier : String) (beats : Int)
    (level : Level) : (s.addInner index identifier beats level).forest.Grown := by
  have ha := grown_attachNode h index identifier beats level
  unfold addInner
  split <;> next hs => rw [hs] at ha; exact ha

theorem grown_addLeaf (h : s.forest.Grown) (index : Nat) (identifier : String) (beats : Int)
    (level : Level) : (s.addLeaf index identifier beats level).forest.Grown := by
  have ha := grown_attachNode h index identifier beats level
  unfold addLeaf
  split <;> next hs => rw [hs] at ha; exact ha

theorem grown_attach (h : s.forest.Grown) (index : Nat) (identifier : String)
    (events : List Event) : (s.attach index identifier events).forest.Grown := by
  unfold attach
  induction events generalizing s with
  | nil => exact h
  | cons event rest ih =>
    rw [List.foldl_cons]
    apply ih
    unfold attachEvent
    split
    · exact h.addComponent _ _
    · exact h

/-- An instruction adds a single node, or it lets a tree grow, or it leaves the trees alone. -/
theorem grown_perform (h : s.forest.Grown) (index : Nat) (identifier : String) (i : Instruction) :
    (s.perform index identifier i).forest.Grown := by
  cases i with
  | openMeasure =>
    show s.closeMeasure.forest.Grown
    rwa [forest_closeMeasure]
  | setMode mode => cases mode <;> exact h
  | addRoot d => exact grown_addRoot h index d
  | addInner beats level => exact grown_addInner h index identifier beats level
  | addLeaf beats level => exact grown_addLeaf h index identifier beats level
  | storeValue value =>
    show (s.storeValue index value).forest.Grown
    unfold storeValue
    split <;> exact h
  | attach events => exact grown_attach h index identifier events
  | _ => exact h

theorem grown_after (h : s.forest.Grown) (index : Nat) (t : Token) :
    (s.after index t).forest.Grown := by
  cases hi : t.instruction? with
  | none =>
    rcases after_of_instruction?_eq_none hi s index with ha | ha <;> rw [ha] <;> exact h
  | some i =>
    rw [after_of_instruction? hi]
    exact grown_perform h index t.name i

/-- **All trees behind a stream have grown.** -/
theorem grown_reached (ts : List Token) : (reached ts).forest.Grown := by
  induction ts using List.reverseRecOn with
  | nil =>
    intro t ht
    cases ht
  | append_singleton ts t ih =>
    rw [reached_concat]
    exact grown_after ih ts.length t

end BuilderState

end RhythmTree
