import RhythmTree.Proofs.Depth
import RhythmTree.Proofs.Growth
import RhythmTree.Proofs.Layers
import RhythmTree.Proofs.SingleVoice

/-!
# Streams that go on at a barline

A measure that is opened closes the one before it, and nothing that the tokens before it have left
open matters any more: not the open nodes, not the depth, not the position. So a stream that starts
with a measure means behind other tokens what it means by itself, only later.

* `Delayed`: one state goes on from another one as a third one does from the start of the piece.
  `Delayed.perform`: **an instruction that reaches back to nothing keeps two states delayed.**
* `SelfContained`: the streams of such instructions. `delayed_reached`: what they do behind other
  tokens.
* `normalize_delayRoot`: normalization of a tree that starts later.
* `build_append_at_bar`: **two streams that meet at a barline give the measures and the trees of the
  first, then those of the second later by the time of the first.**
-/

namespace RhythmTree

open BuilderState

/-! ### Moving in time -/

/-- The measure with more measures and more time before it. -/
def Measure.delay (count : Nat) (gap : Duration) (m : Measure) : Measure :=
  { m with number := m.number + count, offset := gap + m.offset }

/-- The node at a later time. -/
def Node.delay (gap : Duration) (n : Node) : Node := { n with offset := gap + n.offset }

namespace Tree

/-- The tree with a later root. Before normalization the nodes below the root have no time yet. -/
def delayRoot (gap : Duration) (t : Tree) : Tree := t.modifyLabel (Node.delay gap)

theorem children_subtreeAt_delayRoot (gap : Duration) (t : Tree) (p : Address) :
    ((delayRoot gap t).subtreeAt p).map Rose.children = (t.subtreeAt p).map Rose.children := by
  cases t with
  | node n ts => cases p <;> rfl

theorem delayRoot_addLeaf (gap : Duration) (beats : Int) (p : Address) (t : Tree) :
    delayRoot gap (Rose.modifyAt (Rose.addLeaf { beats := beats }) p t) =
      Rose.modifyAt (Rose.addLeaf { beats := beats }) p (delayRoot gap t) := by
  cases t with
  | node n ts => cases p <;> rfl

/-- **A tree that starts later has all its nodes later.** -/
theorem normalize_delayRoot (gap : Duration) (t : Tree) :
    normalize (delayRoot gap t) = (normalize t).map (Node.delay gap) := by
  have hp := @map_placeAt_eq (Node.delay gap) id (gap + ·) (fun _ _ => rfl)
    (fun n a => (Duration.add_assoc gap a n.duration).symm) (scale t) (scale t).label.offset
  rw [normalize, normalize, layOut, layOut, hp, Rose.map_id]
  cases t
  rfl

end Tree

/-! ### Delayed states -/

/-- The state `s'` goes on from `x`, whose last measure is closed, as `s` does from the start of the
piece. As long as `s` has no tree, the position, the open nodes and the depth may differ. -/
structure Delayed (x s s' : BuilderState) : Prop where
  mode : s'.mode = s.mode
  ahead : s.mode ≠ .decrement
  elapsed : s'.elapsed = s.elapsed
  measureStart : s'.measureStart = x.measureStart + s.measureStart
  opened : s.measures ≠ []
  measures : s'.measures =
    x.measures ++ s.measures.map (Measure.delay x.measures.length x.measureStart)
  forest : s'.forest = x.forest ++ s.forest.map (Tree.delayRoot x.measureStart)
  inside : s.forest ≠ [] →
    s'.position = x.measureStart + s.position ∧ s'.stack = s.stack ∧ s'.depth = s.depth

namespace Delayed

variable {x s s' : BuilderState}

theorem closeMeasure (h : Delayed x s s') : Delayed x s.closeMeasure s'.closeMeasure := by
  obtain ⟨ms, m, hm⟩ := (List.eq_nil_or_concat s.measures).resolve_left h.opened
  rw [List.concat_eq_append] at hm
  have hm' : s'.measures =
      (x.measures ++ ms.map (Measure.delay x.measures.length x.measureStart)) ++
        [Measure.delay x.measures.length x.measureStart m] := by
    rw [h.measures, hm, List.map_append, List.append_assoc]
    rfl
  rw [closeMeasure_of_concat hm, closeMeasure_of_concat hm']
  refine ⟨h.mode, h.ahead, h.elapsed, ?_, by simp, ?_, h.forest, h.inside⟩
  · show s'.measureStart + s'.elapsed = x.measureStart + (s.measureStart + s.elapsed)
    rw [h.measureStart, h.elapsed, Duration.add_assoc]
  · rw [List.map_append, ← List.append_assoc, h.elapsed]
    rfl

theorem openMeasure (h : Delayed x s s') : Delayed x s.openMeasure s'.openMeasure := by
  have hc := h.closeMeasure
  have hn : s.openMeasure.measures ≠ [] := by simp [BuilderState.openMeasure, appendMeasure]
  refine ⟨rfl, StackMode.noConfusion, rfl, hc.measureStart, hn, ?_, hc.forest, hc.inside⟩
  have hl : (s'.closeMeasure.measures.length : Int) + 1 =
      s.closeMeasure.measures.length + 1 + x.measures.length := by
    rw [hc.measures, List.length_append, List.length_map]
    omega
  have hnew : Measure.mk (s'.closeMeasure.measures.length + 1) s'.closeMeasure.measureStart .zero =
      Measure.delay x.measures.length x.measureStart
        ⟨s.closeMeasure.measures.length + 1, s.closeMeasure.measureStart, .zero⟩ := by
    rw [hl, hc.measureStart]
    rfl
  show s'.closeMeasure.measures ++ [_] = x.measures ++ List.map _ (s.closeMeasure.measures ++ [_])
  rw [hnew, List.map_append, ← List.append_assoc, ← hc.measures]
  rfl

theorem setMode (h : Delayed x s s') {mode : StackMode} (hm : mode ≠ .decrement) :
    Delayed x (s.setMode mode) (s'.setMode mode) := by
  cases mode with
  | measure => exact { h with mode := rfl, ahead := StackMode.noConfusion, elapsed := rfl }
  | increment => exact { h with mode := rfl, ahead := StackMode.noConfusion }
  | decrement => exact absurd rfl hm

theorem addRootAt (h : Delayed x s s') (hp : s'.position = x.measureStart + s.position)
    (d offset : Duration) :
    Delayed x (s.addRootAt d offset) (s'.addRootAt d (x.measureStart + offset)) := by
  refine ⟨h.mode, h.ahead, congrArg (· + d) h.elapsed, h.measureStart, h.opened, h.measures, ?_,
    fun _ => ⟨?_, rfl, rfl⟩⟩
  · show s'.forest ++ [_] = x.forest ++ (s.forest ++ [_]).map _
    rw [h.forest, List.map_append, List.append_assoc]
    rfl
  · show s'.position + d = x.measureStart + (s.position + d)
    rw [hp, Duration.add_assoc]

/-- A tree is added later, unless it would follow the trees before the delay. -/
theorem addRoot (h : Delayed x s s') (hm : s.forest = [] → s.mode = .measure) (a b : Nat)
    (d : Duration) : Delayed x (s.addRoot a d) (s'.addRoot b d) := by
  cases hs : s.mode with
  | measure =>
    have hr : Delayed x { s with position := s.measureStart }
        { s' with position := s'.measureStart } :=
      { h with inside := fun hf => ⟨h.measureStart, (h.inside hf).2⟩ }
    -- in this mode the position is set before it is used, so the states may differ in it
    rw [addRoot_of_measure hs, addRoot_of_measure (h.mode.trans hs)]
    have ha := hr.addRootAt h.measureStart d s.measureStart
    rwa [← h.measureStart] at ha
  | increment =>
    have hf : s.forest ≠ [] := fun hf => by rw [hm hf] at hs; cases hs
    have hp := (h.inside hf).1
    rw [addRoot_of_increment hs, addRoot_of_increment (h.mode.trans hs), hp]
    exact h.addRootAt hp d s.position
  | decrement => exact absurd hs h.ahead

theorem closeLevels (h : Delayed x s s') (hf : s.forest ≠ []) (a b depth : Nat) :
    Delayed x (s.closeLevels a depth) (s'.closeLevels b depth) := by
  obtain ⟨hp, hs, hd⟩ := h.inside hf
  unfold BuilderState.closeLevels
  rw [hs, hd]
  split
  · dsimp only
    split <;> exact { h with inside := fun _ => ⟨hp, rfl, rfl⟩ }
  · exact h

/-- A node goes below the same node of the latest tree, which is later. -/
theorem attachChild (h : Delayed x s s') (hf : s.forest ≠ []) (a b : Nat) (identifier : String)
    (beats : Int) (depth : Nat) :
    (s.attachChild a identifier beats depth).1.map Place.path =
        (s'.attachChild b identifier beats depth).1.map Place.path ∧
      Delayed x (s.attachChild a identifier beats depth).2
        (s'.attachChild b identifier beats depth).2 := by
  obtain ⟨hp, hs, hd⟩ := h.inside hf
  obtain ⟨f, t, ht⟩ := (List.eq_nil_or_concat s.forest).resolve_left hf
  rw [List.concat_eq_append] at ht
  have ht' : s'.forest = (x.forest ++ f.map (Tree.delayRoot x.measureStart)) ++
      [Tree.delayRoot x.measureStart t] := by
    rw [h.forest, ht, List.map_append, List.append_assoc]
    rfl
  unfold BuilderState.attachChild
  rw [hs]
  cases s.stack.top? with
  | none => exact ⟨rfl, { h with }⟩
  | some path =>
    -- the latest trees differ in the offset of the root, so the next child has the same address
    have hc := Tree.children_subtreeAt_delayRoot x.measureStart t path
    refine ⟨?_, { h with forest := ?_, inside := fun _ => ⟨hp, rfl, rfl⟩ }⟩
    · show some (s.forest.nextChild ⟨s.forest.length - 1, path⟩).path =
        some (s'.forest.nextChild ⟨s'.forest.length - 1, path⟩).path
      rw [ht, ht', Forest.path_nextChild_concat, Forest.path_nextChild_concat, hc]
    · show s'.forest.addChild beats ⟨s'.forest.length - 1, path⟩ =
        x.forest ++ (s.forest.addChild beats ⟨s.forest.length - 1, path⟩).map _
      rw [ht, ht', Forest.addChild_concat, Forest.addChild_concat, List.map_append,
        ← List.append_assoc, ← Tree.delayRoot_addLeaf]
      rfl

theorem attachNode (h : Delayed x s s') (hf : s.forest ≠ []) (a b : Nat) (identifier : String)
    (beats : Int) (level : Level) :
    (s.attachNode a identifier beats level).1.map Place.path =
        (s'.attachNode b identifier beats level).1.map Place.path ∧
      Delayed x (s.attachNode a identifier beats level).2
        (s'.attachNode b identifier beats level).2 :=
  (h.closeLevels hf a b level.outer).attachChild (forest_closeLevels a level.outer s ▸ hf) a b
    identifier beats level.outer

theorem addInner (h : Delayed x s s') (hf : s.forest ≠ []) (a b : Nat) (identifier : String)
    (beats : Int) (level : Level) :
    Delayed x (s.addInner a identifier beats level) (s'.addInner b identifier beats level) := by
  have hn := h.attachNode hf a b identifier beats level
  unfold BuilderState.addInner
  -- `hn` rules out that one state attaches the node and the other one loses it
  revert hn
  rcases s.attachNode a identifier beats level with ⟨_ | place, after⟩ <;>
    rcases s'.attachNode b identifier beats level with ⟨_ | place', after'⟩ <;>
    rintro ⟨hp, hn⟩
  · exact hn
  · cases hp
  · cases hp
  · have hpush : place.path = place'.path := Option.some.inj hp
    refine { hn with inside := fun hf => ?_ }
    obtain ⟨hq, hs, hd⟩ := hn.inside hf
    refine ⟨hq, ?_, hd⟩
    show after'.stack.push place'.path = after.stack.push place.path
    rw [hpush, hs]

theorem addLeaf (h : Delayed x s s') (hf : s.forest ≠ []) (a b : Nat) (identifier : String)
    (beats : Int) (level : Level) :
    Delayed x (s.addLeaf a identifier beats level) (s'.addLeaf b identifier beats level) := by
  have hn := h.attachNode hf a b identifier beats level
  unfold BuilderState.addLeaf
  revert hn
  rcases s.attachNode a identifier beats level with ⟨_ | place, after⟩ <;>
    rcases s'.attachNode b identifier beats level with ⟨_ | place', after'⟩ <;>
    rintro ⟨hp, hn⟩
  · exact hn
  · cases hp
  · cases hp
  · exact { hn with }

end Delayed

/-- What an instruction does in a state does not depend on what was there before the first tree. -/
def Instruction.StaysWithin (s : BuilderState) : Instruction → Prop
  | .setMode mode => mode ≠ .decrement
  | .addRoot _ => s.forest = [] → s.mode = .measure
  | .addInner _ _ | .addLeaf _ _ => s.forest ≠ []
  | _ => True

/-- **An instruction that reaches back to nothing before keeps two states delayed.** -/
theorem Delayed.perform {x s s' : BuilderState} (h : Delayed x s s') {i : Instruction}
    (hs : i.isStructural = true) (hi : i.StaysWithin s) (a b : Nat) (identifier : String) :
    Delayed x (s.perform a identifier i) (s'.perform b identifier i) := by
  cases i with
  | openMeasure => exact h.openMeasure
  | setMode mode => exact h.setMode hi
  | addRoot d => exact h.addRoot hi a b d
  | addInner beats level => exact h.addInner hi a b identifier beats level
  | addLeaf beats level => exact h.addLeaf hi a b identifier beats level
  | _ => cases hs

/-! ### Streams that reach back to nothing -/

/-- A stream that reaches back to nothing before it, once a measure has been opened. -/
structure SelfContained (ts : List Token) : Prop where
  /-- No token switches to decrement mode. -/
  no_decrement : ∀ t ∈ ts, t.mode? ≠ some .decrement
  /-- Every node below a root comes behind a root. -/
  no_node : EachAfter (fun before t => t.extension?.isSome = true → treeCount before ≠ 0) ts
  /-- No token before the first root switches to increment mode. -/
  no_increment : EachAfter (fun before t => t.startsTree = true → treeCount before = 0 →
    ∀ u ∈ before, u.mode? ≠ some .increment) ts

theorem SelfContained.of_append {ts us : List Token} (h : SelfContained (ts ++ us)) :
    SelfContained ts :=
  ⟨fun t ht => h.no_decrement t (List.mem_append_left us ht), h.no_node.of_append,
    h.no_increment.of_append⟩

namespace BuilderState

theorem forest_reached_eq_nil_iff (ts : List Token) :
    (reached ts).forest = [] ↔ treeCount ts = 0 := by
  rw [← length_spans_reached, List.length_eq_zero_iff]
  exact List.map_eq_nil_iff.symm

/-- Until a token switches to another mode, the mode is that of the measure. -/
theorem mode_reached_eq_measure {ts : List Token} (hd : ∀ t ∈ ts, t.mode? ≠ some .decrement)
    (hi : ∀ t ∈ ts, t.mode? ≠ some .increment) : (reached ts).mode = .measure := by
  induction ts using List.reverseRecOn with
  | nil => rfl
  | append_singleton ts t ih =>
    have hm := ih (fun u hu => hd u (List.mem_append_left _ hu))
      fun u hu => hi u (List.mem_append_left _ hu)
    rw [reached_concat]
    cases timedStep_after (reached ts) ts.length t with
    | bar _ _ _ e => rw [e]; rfl
    | switch m _ _ hm' e =>
      rw [e]
      cases m with
      | measure => rfl
      | increment => exact absurd hm' (hi t (by simp))
      | decrement => exact absurd hm' (hd t (by simp))
    | root d _ _ _ e =>
      obtain ⟨offset, elapsed, position, ht⟩ := times_addRoot ts.length d (reached ts)
      rw [e]
      exact (congrArg Times.mode ht).trans hm
    | idle _ _ _ e => exact (congrArg Times.mode e).trans hm

end BuilderState

/-- An instruction of a stream that reaches back to nothing stays within it. -/
theorem SelfContained.staysWithin {ts : List Token} {t : Token} {i : Instruction}
    (h : SelfContained (ts ++ [t])) (hi : t.instruction? = some i) :
    i.StaysWithin (reached ts).skeleton := by
  have hf : (reached ts).skeleton.forest = [] ↔ treeCount ts = 0 :=
    List.map_eq_nil_iff.trans (forest_reached_eq_nil_iff ts)
  cases i with
  | setMode mode =>
    rintro rfl
    exact h.no_decrement t (by simp) (by rw [Token.mode?, hi])
  | addRoot d =>
    intro hn
    have hs : t.startsTree = true := by rw [Token.startsTree, Token.duration?, hi]; rfl
    exact mode_reached_eq_measure h.of_append.no_decrement
      (h.no_increment.last hs (hf.mp hn))
  | addInner beats level | addLeaf beats level =>
    intro hn
    exact h.no_node.last (by rw [Token.extension?, hi]; rfl) (hf.mp hn)
  | _ => trivial

/-- A measure that is opened behind a state is delayed by the measures and the time before it. -/
theorem delayed_openMeasure (s : BuilderState) :
    Delayed s.closeMeasure ({} : BuilderState).openMeasure s.openMeasure := by
  refine ⟨rfl, StackMode.noConfusion, rfl, (Duration.add_zero _).symm, by simp [openMeasure,
    appendMeasure], ?_, (List.append_nil _).symm, fun hf => absurd rfl hf⟩
  have hnew : (⟨s.closeMeasure.measures.length + 1, s.closeMeasure.measureStart, .zero⟩ : Measure) =
      Measure.delay s.closeMeasure.measures.length s.closeMeasure.measureStart
        ⟨(([] : List Measure).length : Int) + 1, .zero, .zero⟩ := by
    rw [Measure.delay, Duration.add_zero, List.length_nil, Int.add_comm]
    rfl
  show s.closeMeasure.measures ++ [_] = s.closeMeasure.measures ++ [Measure.delay _ _ _]
  rw [hnew]
  rfl

/-- **A stream that starts with a measure and reaches back to nothing is delayed by the tokens
before it.** -/
theorem delayed_reached (ts : List Token) {us : List Token} {bar : Token}
    (hbar : bar.opensMeasure = true) (h : SelfContained (bar :: us)) :
    Delayed (reached ts).closeMeasure.skeleton (reached (bar :: us)).skeleton
      (reached (ts ++ bar :: us)).skeleton := by
  induction us using List.reverseRecOn with
  | nil =>
    have hb : reached [bar] = ({} : BuilderState).openMeasure := after_of_opensMeasure hbar {} 0
    rw [reached_concat, after_of_opensMeasure hbar, skeleton_openMeasure, skeleton_closeMeasure, hb]
    exact delayed_openMeasure (reached ts).skeleton
  | append_singleton us t ih =>
    have hs : SelfContained ((bar :: us) ++ [t]) := h
    have hd := ih hs.of_append
    have he : ts ++ bar :: (us ++ [t]) = (ts ++ bar :: us) ++ [t] := by simp
    rw [he, ← List.cons_append, reached_concat, reached_concat]
    cases hi : t.instruction? with
    | none =>
      rwa [Layer.view_after_of_none skeleton_record_unrecognized hi,
        Layer.view_after_of_none skeleton_record_unrecognized hi]
    | some i =>
      rw [after_of_instruction? hi, after_of_instruction? hi]
      cases hst : i.isStructural with
      | true =>
        rw [skeleton_perform hst, skeleton_perform hst]
        exact hd.perform hst (hs.staysWithin hi) 0 0 t.name
      | false => rwa [skeleton_perform_of_not hst, skeleton_perform_of_not hst]

/-! ### Scores -/

/-- Where the last measure ends. -/
def Score.barline (s : Score) : Duration := s.measures.getLast?.elim .zero Measure.stop

theorem barline_toScore (ts : List Token) :
    (reached ts).toScore.barline = (reached ts).closeMeasure.measureStart := by
  show (reached ts).closeMeasure.measures.getLast?.elim .zero Measure.stop = _
  rcases measures_reached ts with ⟨-, hn, hs⟩ | ⟨ms, -, hms⟩
  · rw [closeMeasure_of_nil hn, hn, hs]
    rfl
  · rw [closeMeasure_of_concat hms, List.getLast?_concat]
    rfl

section

variable {ts us : List Token} {bar : Token} {a b : Score}

/-- **Two streams that meet at a barline follow one another in time.** If the second stream starts
with a measure and reaches back to nothing before it, both together give the measures of the first,
then those of the second with higher numbers and later; and the trees of the first, then those of
the second with every node as much later. -/
theorem build_append_at_bar (hbar : bar.opensMeasure = true) (h : SelfContained (bar :: us))
    (ha : build false ts = .ok a) (hb : build false (bar :: us) = .ok b) :
    ∃ whole, build false (ts ++ bar :: us) = .ok whole ∧
      whole.measures = a.measures ++ b.measures.map (Measure.delay a.measures.length a.barline) ∧
      whole.forest.bare =
        a.forest.bare ++ b.forest.bare.map (Rose.map (Node.delay a.barline)) := by
  have hw : ∀ t ∈ ts ++ bar :: us, t.isWellFormed = true := by
    intro t ht
    rcases List.mem_append.mp ht with ht | ht
    · exact (build_lenient_eq_ok.mp ha).1 t ht
    · exact (build_lenient_eq_ok.mp hb).1 t ht
  have hwhole : build false (ts ++ bar :: us) = .ok (reached (ts ++ bar :: us)).toScore :=
    build_lenient_eq_ok.mpr ⟨hw, rfl⟩
  have hd := delayed_reached ts hbar h
  have hx : a.barline = (reached ts).closeMeasure.skeleton.measureStart := by
    obtain ⟨-, rfl⟩ := build_lenient_eq_ok.mp ha
    exact barline_toScore ts
  have hm : a.measures = (reached ts).closeMeasure.skeleton.measures := by
    rw [measures_build ha, ← skeleton_closeMeasure]
  refine ⟨_, hwhole, ?_, ?_⟩
  · rw [measures_build hwhole, measures_build hb, hx, hm]
    exact hd.closeMeasure.measures
  · have hf : (reached ts).closeMeasure.skeleton.forest = (reached ts).skeleton.forest :=
      congrArg Forest.bare (forest_closeMeasure (reached ts))
    rw [bare_forest_build hwhole, bare_forest_build ha, bare_forest_build hb, hd.forest, hf,
      List.map_append, List.map_map, List.map_map, hx]
    refine congrArg _ (List.map_congr_left fun t _ => ?_)
    exact Tree.normalize_delayRoot _ t

end

open Token in
/-- A stream that ends inside a measure, with an open node and in increment mode. -/
def openEnd : List Token :=
  [bar, root (.ofNat 2), bar, root (.ofNat 4), inner 1 (.below 0), switch .increment]

open Token in
/-- What stands behind a barline: a tree of two leaves, a second voice and a second measure. -/
def freshStart : List Token :=
  [root (.ofNat 3), leaf 2 (.below 0), leaf 1 (.below 0), switch .measure, root (.ofNat 1),
    switch .increment, root (.ofNat 2), bar, root (.ofNat 5)]

theorem build_append_at_bar_openEnd :
    ∃ a b whole, build false openEnd = .ok a ∧ build false (Token.bar :: freshStart) = .ok b ∧
      build false (openEnd ++ Token.bar :: freshStart) = .ok whole ∧
      whole.measures = a.measures ++ b.measures.map (Measure.delay a.measures.length a.barline) ∧
      whole.forest.bare =
        a.forest.bare ++ b.forest.bare.map (Rose.map (Node.delay a.barline)) := by
  have ha : build false openEnd = .ok (reached openEnd).toScore :=
    build_lenient_eq_ok.mpr ⟨by decide +kernel, rfl⟩
  have hb : build false (Token.bar :: freshStart) =
      .ok (reached (Token.bar :: freshStart)).toScore :=
    build_lenient_eq_ok.mpr ⟨by decide +kernel, rfl⟩
  have hs : SelfContained (Token.bar :: freshStart) :=
    ⟨by decide +kernel, by decide +kernel, by decide +kernel⟩
  obtain ⟨whole, hw⟩ := build_append_at_bar (by decide +kernel) hs ha hb
  exact ⟨_, _, whole, ha, hb, hw⟩

end RhythmTree
