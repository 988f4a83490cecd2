import RhythmTree.Proofs.Bare
import RhythmTree.Proofs.Findings
import RhythmTree.Proofs.Parts
import RhythmTree.Proofs.Plain

/-!
# Beginnings of a stream

What the first tokens of a stream have settled, the tokens behind them do not touch. Only the latest
tree still grows, only the last measure is still to be closed, and everything else is added at the
end of its list.

* `Written`: what a builder has written down. `extends_perform`: **all of it stays, and more comes
  behind.**
* `Score.Begins`: what one score shows of another one.
* `build_of_isPrefix`: **a beginning of a stream parses, and its score shows in the score of the
  stream.**
-/

namespace RhythmTree

open BuilderState

/-! ### Trees that no longer grow -/

/-- The trees of a forest that have no place for further nodes, without components: all but the
latest. -/
def Forest.settled (f : Forest) : Forest := Forest.bare f.dropLast

namespace Forest

theorem settled_isPrefix (f : Forest) : f.settled <+: f.bare := (List.dropLast_prefix f).map _

theorem settled_concat (f : Forest) (t : Tree) : settled (f ++ [t]) = f.bare := by
  rw [settled, List.dropLast_concat]

theorem settled_addChild (f : Forest) (beats : Int) (path : Address) :
    settled (f.addChild beats ⟨f.length - 1, path⟩) = f.settled := by
  rcases List.eq_nil_or_concat f with rfl | ⟨f, t, rfl⟩
  · rfl
  · rw [List.concat_eq_append, addChild_concat, settled_concat, settled_concat]

theorem settled_eq_dropLast (f : Forest) : f.settled = f.bare.dropLast := List.map_dropLast

theorem settled_addComponent (f : Forest) (c : Component) (p : Place) :
    settled (f.addComponent c p) = f.settled := by
  rw [settled_eq_dropLast, settled_eq_dropLast, bare_addComponent]

end Forest

/-! ### What a token adds -/

/-- What a builder has written down: all of it stays, and more comes behind. -/
structure Written where
  /-- The trees that no longer grow, without components. -/
  trees : Forest
  /-- The numbers and the offsets of the measures. -/
  headings : List (Int × Duration)
  tempi : List Tempo
  rehearsals : List Rehearsal
  /-- The performers in the order of declaration. -/
  performers : List Text
  /-- The keys of the metadata. -/
  keys : List Text

/-- One record has all of another one, and what it has beside comes behind. -/
structure Written.Extends (w w' : Written) : Prop where
  trees : w.trees <+: w'.trees
  headings : w.headings <+: w'.headings
  tempi : w.tempi <+: w'.tempi
  rehearsals : w.rehearsals <+: w'.rehearsals
  performers : w.performers <+: w'.performers
  keys : w.keys <+: w'.keys

namespace Written.Extends

variable {w w' w'' : Written}

theorem refl (w : Written) : w.Extends w :=
  ⟨List.prefix_rfl, List.prefix_rfl, List.prefix_rfl, List.prefix_rfl, List.prefix_rfl,
    List.prefix_rfl⟩

theorem trans (h : w.Extends w') (h' : w'.Extends w'') : w.Extends w'' :=
  ⟨h.trees.trans h'.trees, h.headings.trans h'.headings, h.tempi.trans h'.tempi,
    h.rehearsals.trans h'.rehearsals, h.performers.trans h'.performers, h.keys.trans h'.keys⟩

end Written.Extends

namespace BuilderState

open Written (Extends)

/-- What a builder has written down in a state. -/
def written (s : BuilderState) : Written :=
  ⟨s.forest.settled, s.measures.map fun m => (m.number, m.offset), s.tempi, s.rehearsals,
    s.performers.keys, s.metadata.keys⟩

theorem written_closeMeasure (s : BuilderState) : s.closeMeasure.written = s.written := by
  rcases List.eq_nil_or_concat s.measures with h | ⟨ms, m, h⟩
  · rw [closeMeasure_of_nil h]
  · rw [List.concat_eq_append] at h
    simp only [written, closeMeasure_of_concat h, h, List.map_append, List.map_cons]

theorem extends_openMeasure (s : BuilderState) : s.written.Extends s.openMeasure.written := by
  rw [← written_closeMeasure s]
  exact { Extends.refl s.closeMeasure.written with headings := (List.prefix_append _ _).map _ }

theorem extends_addRootAt (d offset : Duration) (s : BuilderState) :
    s.written.Extends (s.addRootAt d offset).written := by
  refine { Extends.refl s.written with trees := ?_ }
  show s.forest.settled <+: Forest.settled (s.forest ++ [_])
  rw [Forest.settled_concat]
  exact s.forest.settled_isPrefix

theorem extends_addRoot (index : Nat) (d : Duration) (s : BuilderState) :
    s.written.Extends (s.addRoot index d).written := by
  have hw : (s.placeRoot index).2.written = s.written :=
    placeRoot_induction (motive := fun s' => s'.written = s.written) rfl (fun _ _ h => h)
      (fun _ _ h => h) fun _ _ _ h => h
  exact hw ▸ extends_addRootAt d (s.placeRoot index).1 (s.placeRoot index).2

theorem written_closeLevels (index depth : Nat) (s : BuilderState) :
    (s.closeLevels index depth).written = s.written :=
  closeLevels_induction (motive := fun s' => s'.written = s.written) rfl (fun _ _ h => h)
    fun _ _ _ h => h

theorem written_attachNode (index : Nat) (identifier : String) (beats : Int) (level : Level)
    (s : BuilderState) : (s.attachNode index identifier beats level).2.written = s.written := by
  rw [← written_closeLevels index level.outer s, attachNode, attachChild]
  split
  · rfl
  · simp only [written, Forest.settled_addChild]

theorem written_addInner (index : Nat) (identifier : String) (beats : Int) (level : Level)
    (s : BuilderState) : (s.addInner index identifier beats level).written = s.written :=
  addInner_induction (motive := fun s' => s'.written = s.written)
    (written_attachNode index identifier beats level s) fun _ _ h => h

theorem written_addLeaf (index : Nat) (identifier : String) (beats : Int) (level : Level)
    (s : BuilderState) : (s.addLeaf index identifier beats level).written = s.written :=
  addLeaf_induction (motive := fun s' => s'.written = s.written)
    (written_attachNode index identifier beats level s) fun _ _ h => h

theorem written_attachEvent (index : Nat) (identifier : String) (s : BuilderState)
    (event : Event) : (s.attachEvent index identifier event).written = s.written := by
  unfold attachEvent
  split
  · simp only [written, Forest.settled_addComponent]
  · rfl

theorem written_attach (index : Nat) (identifier : String) (events : List Event)
    (s : BuilderState) : (s.attach index identifier events).written = s.written :=
  attach_induction (motive := fun s' => s'.written = s.written) rfl
    fun s' event h => (written_attachEvent index identifier s' event).trans h

theorem keys_isPrefix_put {α β : Type} [DecidableEq α] (t : Table α β) (key : α) (value : β) :
    t.keys <+: (t.put key value).keys := by
  rw [Table.keys_put]
  split
  · exact List.prefix_rfl
  · exact List.prefix_append _ _

theorem keys_isPrefix_putIfAbsent {α β : Type} [DecidableEq α] (t : Table α β) (key : α)
    (value : β) : t.keys <+: (t.putIfAbsent key value).keys := by
  unfold Table.putIfAbsent
  split
  · exact List.prefix_rfl
  · exact keys_isPrefix_put t key value

/-- **What is written down stays.** -/
theorem extends_perform (index : Nat) (identifier : String) (i : Instruction) (s : BuilderState) :
    s.written.Extends (s.perform index identifier i).written := by
  cases i with
  | openMeasure => exact extends_openMeasure s
  | setMode mode => cases mode <;> exact .refl s.written
  | addRoot d => exact extends_addRoot index d s
  | addInner beats level =>
    exact (written_addInner index identifier beats level s).symm ▸ Extends.refl _
  | addLeaf beats level =>
    exact (written_addLeaf index identifier beats level s).symm ▸ Extends.refl _
  | storeValue value =>
    show s.written.Extends (s.storeValue index value).written
    unfold storeValue
    split
    · exact .refl s.written
    · exact { Extends.refl s.written with keys := keys_isPrefix_put s.metadata _ value }
  | markRehearsal label =>
    exact { Extends.refl s.written with rehearsals := List.prefix_append _ _ }
  | markTempo value subdivision =>
    exact { Extends.refl s.written with tempi := List.prefix_append _ _ }
  | declare performer instruments =>
    exact { Extends.refl s.written with
      performers := keys_isPrefix_put s.performers performer instruments }
  | rejectDeclaration performer typeName =>
    exact { Extends.refl s.written with
      performers := keys_isPrefix_putIfAbsent s.performers performer .empty }
  | attach events => exact (written_attach index identifier events s).symm ▸ Extends.refl _
  | _ => exact .refl s.written

theorem extends_after (s : BuilderState) (index : Nat) (t : Token) :
    s.written.Extends (s.after index t).written := by
  cases hi : t.instruction? with
  | none =>
    rcases after_of_instruction?_eq_none hi s index with h | h <;> rw [h] <;>
      exact .refl s.written
  | some i =>
    rw [after_of_instruction? hi]
    exact extends_perform index t.name i s

theorem extends_afterAll (s : BuilderState) (index : Nat) (ts : List Token) :
    s.written.Extends (s.afterAll index ts).written := by
  induction ts generalizing s index with
  | nil => exact .refl s.written
  | cons t rest ih => exact (extends_after s index t).trans (ih _ _)

end BuilderState

/-! ### Scores -/

/-- A score shows what another one has settled. Its first trees are as long and start where those of
the other one do, and all but the last of these have the same nodes with the same weights and times;
all measures of the other one but the last are in it, and the last with its number and offset; and
what it holds else begins with what the other one holds. -/
structure Score.Begins (earlier later : Score) : Prop where
  roots : earlier.forest.map (fun t => (t.label.duration, t.label.offset)) <+:
    later.forest.map fun t => (t.label.duration, t.label.offset)
  trees : Forest.bare earlier.forest.dropLast <+: Forest.bare later.forest
  measures : earlier.measures.dropLast <+: later.measures
  headings : earlier.measures.map (fun m => (m.number, m.offset)) <+:
    later.measures.map fun m => (m.number, m.offset)
  tempi : earlier.tempi <+: later.tempi
  rehearsals : earlier.rehearsals <+: later.rehearsals
  performers : earlier.performerIds <+: later.performerIds
  metadata : earlier.metadata.keys <+: later.metadata.keys
  issues : earlier.report.withoutCode "BEAT_WEIGHT" <+: later.report.withoutCode "BEAT_WEIGHT"

namespace BuilderState

theorem dropLast_measures_closeMeasure (s : BuilderState) :
    s.closeMeasure.measures.dropLast = s.closed := by
  rcases List.eq_nil_or_concat s.measures with h | ⟨ms, m, h⟩
  · rw [closeMeasure_of_nil h, closed]
  · rw [List.concat_eq_append] at h
    rw [closeMeasure_of_concat h, closed, h, List.dropLast_concat, List.dropLast_concat]

theorem forest_toScore (s : BuilderState) : s.toScore.forest = s.forest.map Tree.normalize :=
  congrArg (List.map Tree.normalize) (forest_closeMeasure s)

theorem bare_dropLast_toScore (s : BuilderState) :
    Forest.bare s.toScore.forest.dropLast = s.forest.settled.map Tree.normalize := by
  rw [forest_toScore, ← List.map_dropLast, Forest.bare_map_normalize, Forest.settled]

theorem settled_isPrefix_toScore (s : BuilderState) :
    s.forest.settled.map Tree.normalize <+: Forest.bare s.toScore.forest := by
  rw [forest_toScore, Forest.bare_map_normalize]
  exact s.forest.settled_isPrefix.map _

/-- The durations and the offsets of the roots can be read off their spans. -/
theorem roots_toScore (s : BuilderState) :
    s.toScore.forest.map (fun t => (t.label.duration, t.label.offset)) =
      s.times.spans.map fun x => (x.length, x.start) := by
  rw [← map_span_toScore, List.map_map]
  exact List.map_congr_left fun t _ => congrArg (·, t.label.offset) (Node.length_span t.label).symm

end BuilderState

section

variable {p ts : List Token} {score : Score}

/-- The score of a beginning of a stream shows in the score of the stream. -/
theorem begins_of_build {us : List Token} {earlier : Score} (hp : build false p = .ok earlier)
    (hb : build false (p ++ us) = .ok score) : earlier.Begins score := by
  have hi := withoutCode_build hp
  have hi' := withoutCode_build hb
  obtain ⟨-, rfl⟩ := build_lenient_eq_ok.mp hp
  obtain ⟨-, rfl⟩ := build_lenient_eq_ok.mp hb
  -- closing the last measure writes nothing down, so the two scores compare like the two runs
  have hw : (reached p).closeMeasure.written.Extends (reached (p ++ us)).closeMeasure.written := by
    rw [written_closeMeasure, written_closeMeasure, reached_append]
    exact extends_afterAll (reached p) p.length us
  obtain ⟨new, -, hs⟩ := spans_afterAll (reached p) p.length us
  have hc := closed_afterAll_isPrefix (reached p) p.length us
  have hf := findings_afterAll_isPrefix (reached p) p.length us
  rw [← reached_append] at hs hc hf
  refine ⟨?_, ?_, ?_, hw.headings, hw.tempi, hw.rehearsals, hw.performers, hw.keys, ?_⟩
  · rw [roots_toScore, roots_toScore, hs]
    exact (List.prefix_append _ new).map _
  · rw [bare_dropLast_toScore]
    refine List.IsPrefix.trans ?_ (settled_isPrefix_toScore _)
    have ht := hw.trees
    simp only [written, forest_closeMeasure] at ht
    exact ht.map _
  · show (reached p).closeMeasure.measures.dropLast <+: (reached (p ++ us)).closeMeasure.measures
    rw [dropLast_measures_closeMeasure]
    exact hc.trans (closed_isPrefix_closeMeasure _)
  · rw [hi, hi']
    exact hf.map _

/-- **A beginning of a stream parses, and its score shows in the score of the stream.** The report
of the stream is in the order of its tokens. -/
theorem build_of_isPrefix (hp : p <+: ts) (hb : build false ts = .ok score) :
    (∃ earlier, build false p = .ok earlier ∧ earlier.Begins score) ∧ score.report.InOrder := by
  refine ⟨?_, inOrder_build hb⟩
  obtain ⟨us, rfl⟩ := hp
  have hw := (build_lenient_eq_ok.mp hb).1
  have he : build false p = .ok (reached p).toScore :=
    build_lenient_eq_ok.mpr ⟨fun t ht => hw t (List.mem_append_left us ht), rfl⟩
  exact ⟨_, he, begins_of_build he hb⟩

end

open Token in
/-- A measure with a tree, and a second measure in which a tree gets a node that has no place. -/
def brokenOff : List Token :=
  [bar, root (.ofNat 4), leaf 0 (.below 0), bar, root (.ofNat 2), leaf 1 (.below 1),
    leaf 1 (.below 0), leaf 1 (.below 0)]

/-- The second measure of the stream is broken off behind its tree. -/
theorem build_of_isPrefix_brokenOff :
    ∃ score, build false brokenOff = .ok score ∧
      (∃ earlier, build false (brokenOff.take 5) = .ok earlier ∧ earlier.Begins score) ∧
      score.report.InOrder := by
  have hb : build false brokenOff = .ok (reached brokenOff).toScore :=
    build_lenient_eq_ok.mpr ⟨by decide +kernel, rfl⟩
  exact ⟨_, hb, build_of_isPrefix (List.take_prefix 5 brokenOff) hb⟩

end RhythmTree
