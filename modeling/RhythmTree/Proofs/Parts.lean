import RhythmTree.Builder.State

/-!
# Instructions by their parts

The instructions about nodes and events are made of smaller changes: closing nodes, recording what
went wrong, adding a node and opening it, one event after the other. A fact that the smaller changes
keep is kept by the instruction. The fact is a predicate on the state behind, which may speak of the
state before as well.

* `placeRoot_induction`, `closeLevels_induction`: where a tree goes, and what is closed for a node.
* `addInner_induction`, `addLeaf_induction`: what becomes of a node that has been attached.
* `attach_induction`: events one after the other.
-/

namespace RhythmTree.BuilderState

variable {motive : BuilderState → Prop} {s : BuilderState} {index : Nat} {identifier : String}

theorem placeRoot_induction (start : motive s)
    (move : ∀ s position, motive s → motive { s with position := position })
    (rest : ∀ s elapsed, motive s → motive { s with elapsed := elapsed })
    (clamp : ∀ s back elapsed, motive s → motive (s.record (.clamped index back elapsed))) :
    motive (s.placeRoot index).2 := by
  unfold placeRoot
  split
  · exact move s _ start
  · exact start
  · split
    · exact start
    · unfold stepBack
      split
      · exact rest _ _ (move s _ start)
      · exact rest _ _ (clamp _ _ _ (move s _ start))

theorem closeLevels_induction {depth : Nat} (start : motive s)
    (pop : ∀ s amount, motive s → motive { s with stack := s.stack.pop amount })
    (lose : ∀ s needed closed, motive s → motive (s.record (.underflow index needed closed))) :
    motive (s.closeLevels index depth) := by
  unfold closeLevels
  split
  · dsimp only
    split
    · exact lose _ _ _ (pop s _ start)
    · exact pop s _ start
  · exact start

variable {beats : Int} {level : Level}

theorem addInner_induction (attached : motive (s.attachNode index identifier beats level).2)
    (push : ∀ s path, motive s → motive { s with stack := s.stack.push path }) :
    motive (s.addInner index identifier beats level) := by
  unfold addInner
  split
  · next h => rw [h] at attached; exact attached
  · next h => rw [h] at attached; exact push _ _ attached

theorem addLeaf_induction (attached : motive (s.attachNode index identifier beats level).2)
    (choose : ∀ s place, motive s → motive { s with leaf := some place }) :
    motive (s.addLeaf index identifier beats level) := by
  unfold addLeaf
  split
  · next h => rw [h] at attached; exact attached
  · next h => rw [h] at attached; exact choose _ _ attached

theorem attach_induction {events : List Event} (start : motive s)
    (event : ∀ s e, motive s → motive (s.attachEvent index identifier e)) :
    motive (s.attach index identifier events) := by
  unfold attach
  induction events generalizing s with
  | nil => exact start
  | cons e rest ih => exact ih (event s e start)

end RhythmTree.BuilderState
