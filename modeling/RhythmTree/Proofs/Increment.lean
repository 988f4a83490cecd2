import RhythmTree.Proofs.Plain
import RhythmTree.Proofs.Timeline

/-!
# Trees in increment mode

In increment mode a tree goes to the position of the builder, which is meant to be the end of the
tree before it. The modes keep it there, with one exception: in decrement mode with no open node a
tree goes to the start of the piece, while the position moves on from where it was.

* `Adrift ts`: the latest tree was placed in that way, at a time when the position was not zero.
* `position_reached_eq_iff`: **the position is the end of the latest tree unless the run is
  adrift.**
* `increment_follows_iff`: a tree in increment mode starts where the tree before it ends exactly
  if the run is not adrift.
-/

namespace RhythmTree

open BuilderState

/-- Where the last of some spans stops, or the start of the piece. -/
def lastStop (spans : List Span) : Duration := spans.getLast?.elim .zero Span.stop

/-- Where the last tree of a forest ends, or the start of the piece. -/
def Forest.lastStop (f : Forest) : Duration := f.getLast?.elim .zero fun t => t.label.stop

theorem lastStop_concat (spans : List Span) (s : Span) : lastStop (spans ++ [s]) = s.stop := by
  rw [lastStop, List.getLast?_concat]
  rfl

theorem Forest.lastStop_eq (f : Forest) : f.lastStop = RhythmTree.lastStop (f.map Tree.span) := by
  rw [Forest.lastStop, RhythmTree.lastStop, List.getLast?_map]
  cases f.getLast? with
  | none => rfl
  | some t => rfl

/-- A state in which the next tree starts at zero and the position does not. -/
def BuilderState.SplitsPosition (s : BuilderState) : Prop :=
  s.mode = .decrement ∧ s.openNode? = none ∧ s.position ≠ .zero

/-- The latest tree was added in a state that separates its start from the position. -/
def Adrift (ts : List Token) : Prop :=
  ∃ before t after, ts = before ++ t :: after ∧ t.startsTree = true ∧
    (∀ u ∈ after, u.startsTree = false) ∧ (reached before).SplitsPosition

theorem adrift_concat_of_startsTree {ts : List Token} {t : Token} (ht : t.startsTree = true) :
    Adrift (ts ++ [t]) ↔ (reached ts).SplitsPosition := by
  constructor
  · rintro ⟨before, u, after, he, -, ha, hs⟩
    rcases List.eq_nil_or_concat after with rfl | ⟨rest, v, rfl⟩
    · obtain ⟨rfl, -⟩ := List.append_inj' he rfl
      exact hs
    · -- the tokens behind the latest tree token would end with a tree token
      rw [List.concat_eq_append, ← List.cons_append, ← List.append_assoc] at he
      obtain ⟨-, hv⟩ := List.append_inj' he rfl
      have hf := ha t (by rw [List.concat_eq_append, ← hv]; simp)
      rw [ht] at hf
      cases hf
  · intro hs
    exact ⟨ts, t, [], rfl, ht, by simp, hs⟩

theorem adrift_concat_of_not_startsTree {ts : List Token} {t : Token} (ht : t.startsTree = false) :
    Adrift (ts ++ [t]) ↔ Adrift ts := by
  constructor
  · rintro ⟨before, u, after, he, hu, ha, hs⟩
    rcases List.eq_nil_or_concat after with rfl | ⟨rest, v, rfl⟩
    · obtain ⟨-, hut⟩ := List.append_inj' he rfl
      rw [List.cons.injEq] at hut
      rw [← hut.1, ht] at hu
      cases hu
    · rw [List.concat_eq_append, ← List.cons_append, ← List.append_assoc] at he
      obtain ⟨rfl, -⟩ := List.append_inj' he rfl
      exact ⟨before, u, rest, rfl, hu, fun w hw => ha w (by simp [hw]), hs⟩
  · rintro ⟨before, u, after, rfl, hu, ha, hs⟩
    refine ⟨before, u, after ++ [t], by simp, hu, fun w hw => ?_, hs⟩
    rcases List.mem_append.mp hw with hw | hw
    · exact ha w hw
    · rw [List.mem_singleton.mp hw]
      exact ht

/-- What adding a tree does to the position: it comes to the end of the tree, unless the state
separates the two. -/
theorem position_addRoot_eq_iff (index : Nat) (d : Duration) (s : BuilderState) :
    (s.addRoot index d).position = lastStop (s.addRoot index d).times.spans ↔
      ¬ s.SplitsPosition := by
  cases h : s.mode with
  | measure =>
    refine iff_of_true ?_ (fun hs => by rw [hs.1] at h; cases h)
    rw [addRoot_of_measure h, times_addRootAt, lastStop_concat]
    rfl
  | increment =>
    refine iff_of_true ?_ (fun hs => by rw [hs.1] at h; cases h)
    rw [addRoot_of_increment h, times_addRootAt, lastStop_concat]
    rfl
  | decrement =>
    cases ho : s.openNode? with
    | none =>
      rw [addRoot_of_decrement_none h ho, times_addRootAt, lastStop_concat]
      simp only [SplitsPosition, h, ho, true_and, not_not]
      exact Duration.add_eq_zero_add_iff
    | some t =>
      refine iff_of_true ?_ (fun hs => by rw [hs.2.1] at ho; cases ho)
      obtain ⟨rest, hr⟩ :=
        times_stepBack index t.label.duration { s with position := t.label.offset }
      have hp := congrArg Times.position hr
      rw [addRoot_of_decrement_some h ho, times_addRootAt, lastStop_concat]
      exact congrArg (· + d) hp

/-- **The position is the end of the latest tree unless the run is adrift.** -/
theorem position_reached_eq_iff (ts : List Token) :
    (reached ts).position = lastStop (reached ts).times.spans ↔ ¬ Adrift ts := by
  induction ts using List.reverseRecOn with
  | nil =>
    refine iff_of_true rfl ?_
    rintro ⟨before, t, after, he, -⟩
    simp at he
  | append_singleton ts t ih =>
    rw [reached_concat]
    cases timedStep_after (reached ts) ts.length t with
    | bar _ ht _ e =>
      rw [adrift_concat_of_not_startsTree ht, e, spans_openMeasure, position_openMeasure]
      exact ih
    | switch m _ ht _ e =>
      rw [adrift_concat_of_not_startsTree ht, e]
      cases m <;> exact ih
    | root d _ ht _ e =>
      rw [adrift_concat_of_startsTree ht, e]
      exact position_addRoot_eq_iff ts.length d (reached ts)
    | idle _ ht _ e =>
      have hp : ((reached ts).after ts.length t).position = (reached ts).position :=
        congrArg Times.position e
      rw [adrift_concat_of_not_startsTree ht, e, hp]
      exact ih

/-- **When increment mode means "after the tree before".** A tree that is added in increment mode
starts where the tree before it ends, and at the start of the piece if there is none, exactly if
that tree was not put at the start of the piece while the position stayed elsewhere. -/
theorem increment_follows_iff {before after : List Token} {t : Token} {score : Score}
    (hb : build false (before ++ t :: after) = .ok score) (ht : t.startsTree = true)
    (hm : (reached before).mode = .increment) :
    ∃ tree, score.forest[treeCount before]? = some tree ∧
      (tree.label.offset = Forest.lastStop (score.forest.take (treeCount before)) ↔
        ¬ Adrift before) := by
  obtain ⟨d, hi⟩ := Token.exists_instruction?_of_startsTree ht
  have hs : (reached (before ++ [t])).times.spans =
      (reached before).times.spans ++ [.ofLength d (reached before).position] := by
    rw [reached_concat, after_of_instruction? hi, perform, addRoot_of_increment hm,
      times_addRootAt]
  obtain ⟨tree, hf, he⟩ := exists_tree_of_spans hb ht hs
  have ho : tree.label.offset = (reached before).position := congrArg Span.start he
  refine ⟨tree, hf, ?_⟩
  rw [ho, Forest.lastStop_eq, ← spans_reached hb]
  exact position_reached_eq_iff before

open Token in
theorem increment_follows_two_trees :
    ∃ score, build false [root (.ofNat 3), switch .increment, root (.ofNat 1)] = .ok score ∧
      ∃ tree, score.forest[1]? = some tree ∧
        (tree.label.offset = Forest.lastStop (score.forest.take 1) ↔
          ¬ Adrift [root (.ofNat 3), switch .increment]) := by
  have hb : build false ([root (.ofNat 3), switch .increment] ++ root (.ofNat 1) :: []) =
      .ok (reached [root (.ofNat 3), switch .increment, root (.ofNat 1)]).toScore :=
    build_lenient_eq_ok.mpr ⟨by decide +kernel, rfl⟩
  have ht : (root (.ofNat 1)).startsTree = true := by decide +kernel
  have hm : (reached [root (.ofNat 3), switch .increment]).mode = .increment := by decide +kernel
  have h1 : treeCount [root (.ofNat 3), switch .increment] = 1 := by decide +kernel
  have h := increment_follows_iff hb ht hm
  rw [h1] at h
  exact ⟨_, hb, h⟩

open Token in
/-- A stream that goes adrift: the second leaf leaves the first tree without an open node, so the
second tree starts at zero while the position runs on to seven. -/
def driftingStream : List Token :=
  [root (.ofNat 4), leaf 1 (.below 1), leaf 1 (.below 0), switch .decrement,
    root (.ofNat 3), switch .increment]

/-- Increment mode does not always mean "after the tree before". -/
theorem not_forall_increment_follows :
    ¬ ∀ (before after : List Token) (t : Token) (score : Score),
      build false (before ++ t :: after) = .ok score → t.startsTree = true →
        (reached before).mode = .increment → ∃ tree, score.forest[treeCount before]? = some tree ∧
          tree.label.offset = Forest.lastStop (score.forest.take (treeCount before)) := by
  intro h
  have hw : ∀ t ∈ driftingStream ++ [Token.root (.ofNat 1)], t.isWellFormed = true := by
    decide +kernel
  obtain ⟨tree, hf, ho⟩ := h driftingStream [] (Token.root (.ofNat 1)) _
    (build_lenient_eq_ok.mpr ⟨hw, rfl⟩) (by decide +kernel) (by decide +kernel)
  have hs : Forest.lastStop ((reached (driftingStream ++
      [Token.root (.ofNat 1)])).toScore.forest.take (treeCount driftingStream)) = .ofNat 3 := by
    decide +kernel
  have hr : ((reached (driftingStream ++ [Token.root (.ofNat 1)])).toScore.forest[treeCount
      driftingStream]?).map (·.label.offset) = some (.ofNat 7) := by decide +kernel
  rw [hf, Option.map_some, ho, hs] at hr
  exact absurd hr (by decide +kernel)

end RhythmTree
