import RhythmTree.Proofs.Layout
import RhythmTree.Proofs.Times

/-!
# From a run to its score

A score keeps what the run has settled. Trees keep the time they were given, in the order of their
tokens, and a measure is settled once the next one is opened or the stream ends.

* `spans_reached_append`: the trees that a part of a stream adds stand in the score where the
  counts of tree tokens say.
* `measures_reached`: measures are numbered from one, and the current one starts at `measureStart`.
* `tiles_measures`: **the measures of a score lie back to back.**
* `getElem?_measures_of_close`: **a closed measure never changes.** In the score it starts at the
  `measureStart` and lasts for the time elapsed when its last token has been read.
-/

namespace RhythmTree

namespace BuilderState

/-! ### Closing a measure -/

theorem closeMeasure_of_nil {s : BuilderState} (h : s.measures = []) : s.closeMeasure = s := by
  rw [closeMeasure, h]
  rfl

theorem closeMeasure_of_concat {s : BuilderState} {ms : List Measure} {m : Measure}
    (h : s.measures = ms ++ [m]) :
    s.closeMeasure = { s with
      measures := ms ++ [{ m with duration := s.elapsed }]
      measureStart := s.measureStart + s.elapsed } := by
  have he : (ms ++ [m]).isEmpty = false := by simp
  simp only [closeMeasure, h, he, List.length_append, List.length_singleton, Nat.add_sub_cancel,
    Rose.modify_concat]
  rfl

@[simp] theorem forest_closeMeasure (s : BuilderState) : s.closeMeasure.forest = s.forest := by
  unfold closeMeasure
  split <;> rfl

theorem position_openMeasure (s : BuilderState) : s.openMeasure.position = s.position := by
  unfold openMeasure closeMeasure
  split <;> rfl

/-- The measures that are closed, which are all but the last. -/
def closed (s : BuilderState) : List Measure := s.measures.dropLast

theorem closed_isPrefix_closeMeasure (s : BuilderState) : s.closed <+: s.closeMeasure.measures := by
  rcases List.eq_nil_or_concat s.measures with h | ⟨ms, m, h⟩
  · rw [closed, h]
    exact List.nil_prefix
  · rw [List.concat_eq_append] at h
    rw [closed, closeMeasure_of_concat h, h, List.dropLast_concat]
    exact List.prefix_append _ _

theorem closed_openMeasure (s : BuilderState) : s.openMeasure.closed = s.closeMeasure.measures := by
  rw [closed, openMeasure, appendMeasure, List.dropLast_concat]

/-- Until the next measure is opened the measures stay, and so does the start of the current one. -/
theorem measures_after {t : Token} (h : t.opensMeasure = false) (s : BuilderState) (index : Nat) :
    (s.after index t).measures = s.measures ∧
      (s.after index t).measureStart = s.measureStart := by
  cases timedStep_after s index t with
  | bar ho _ _ _ =>
    rw [h] at ho
    cases ho
  | switch m _ _ _ e =>
    rw [e]
    cases m <;> exact ⟨rfl, rfl⟩
  | root d _ _ _ e =>
    obtain ⟨offset, elapsed, position, ht⟩ := times_addRoot index d s
    rw [e]
    exact ⟨congrArg Times.measures ht, congrArg Times.measureStart ht⟩
  | idle _ _ _ e => exact ⟨congrArg Times.measures e, congrArg Times.measureStart e⟩

theorem after_of_opensMeasure {t : Token} (h : t.opensMeasure = true) (s : BuilderState)
    (index : Nat) : s.after index t = s.openMeasure :=
  after_of_instruction? (Token.instruction?_of_opensMeasure h) s index

theorem closed_after_isPrefix (s : BuilderState) (index : Nat) (t : Token) :
    s.closed <+: (s.after index t).closed := by
  cases h : t.opensMeasure with
  | true =>
    rw [after_of_opensMeasure h, closed_openMeasure]
    exact closed_isPrefix_closeMeasure s
  | false =>
    have hc : (s.after index t).closed = s.closed :=
      congrArg List.dropLast (measures_after h s index).1
    exact hc ▸ List.prefix_rfl

theorem closed_afterAll_isPrefix (s : BuilderState) (index : Nat) (ts : List Token) :
    s.closed <+: (s.afterAll index ts).closed := by
  induction ts generalizing s index with
  | nil => exact List.prefix_rfl
  | cons t rest ih => exact (closed_after_isPrefix s index t).trans (ih _ _)

theorem measureStart_reached_append {ts us : List Token} (h : ∀ t ∈ us, t.opensMeasure = false) :
    (reached (ts ++ us)).measureStart = (reached ts).measureStart := by
  induction us using List.reverseRecOn with
  | nil => rw [List.append_nil]
  | append_singleton us t ih =>
    rw [← List.append_assoc, reached_concat, (measures_after (h t (by simp)) _ _).2]
    exact ih fun u hu => h u (by simp [hu])

/-- **Measures are numbered from one, and the current one starts at `measureStart`.** As long as
there is none, that point is the start of the piece. -/
theorem measures_reached (ts : List Token) :
    (measureCount ts = 0 ∧ (reached ts).measures = [] ∧ (reached ts).measureStart = .zero) ∨
      ∃ ms, ms.length + 1 = measureCount ts ∧ (reached ts).measures =
        ms ++ [{ number := ms.length + 1, offset := (reached ts).measureStart }] := by
  induction ts using List.reverseRecOn with
  | nil => exact .inl ⟨rfl, rfl, rfl⟩
  | append_singleton ts t ih =>
    rw [reached_concat, measureCount_concat]
    cases h : t.opensMeasure with
    | true =>
      rw [after_of_opensMeasure h, if_pos rfl]
      refine .inr ⟨(reached ts).closeMeasure.measures, ?_, rfl⟩
      rcases ih with ⟨h0, hn, -⟩ | ⟨ms, hl, hms⟩
      · rw [closeMeasure_of_nil hn, hn, h0]
        rfl
      · rw [closeMeasure_of_concat hms, ← hl]
        simp
    | false =>
      obtain ⟨hm, hs⟩ := measures_after h (reached ts) ts.length
      rw [hm, hs, if_neg Bool.false_ne_true, Nat.add_zero]
      exact ih

theorem tiles_closeMeasure {ts : List Token}
    (h : Tiles .zero ((reached ts).closed.map Measure.span) (reached ts).measureStart) :
    Tiles .zero ((reached ts).closeMeasure.measures.map Measure.span)
      (reached ts).closeMeasure.measureStart := by
  rcases measures_reached ts with ⟨-, hn, hs⟩ | ⟨ms, -, hms⟩
  · rw [closeMeasure_of_nil hn, hn]
    exact hs.symm
  · rw [closed, hms, List.dropLast_concat] at h
    rw [closeMeasure_of_concat hms, List.map_append]
    exact h.concat rfl

/-- **The closed measures lie back to back** from the start of the piece to the start of the current
measure. -/
theorem tiles_closed (ts : List Token) :
    Tiles .zero ((reached ts).closed.map Measure.span) (reached ts).measureStart := by
  induction ts using List.reverseRecOn with
  | nil => rfl
  | append_singleton ts t ih =>
    rw [reached_concat]
    cases h : t.opensMeasure with
    | true =>
      rw [after_of_opensMeasure h, closed_openMeasure]
      exact tiles_closeMeasure ih
    | false =>
      obtain ⟨hm, hs⟩ := measures_after h (reached ts) ts.length
      rw [closed, hm, hs]
      exact ih

/-! ### Trees -/

theorem spans_openMeasure (s : BuilderState) : s.openMeasure.times.spans = s.times.spans :=
  congrArg (List.map Tree.span) (forest_closeMeasure s)

theorem spans_setMode (mode : StackMode) (s : BuilderState) :
    (s.setMode mode).times.spans = s.times.spans := by
  cases mode <;> rfl

/-- A token that adds a tree puts its span behind the others, and no other token changes a span. -/
theorem spans_after (s : BuilderState) (index : Nat) (t : Token) :
    ∃ new, new.length = (if t.startsTree then 1 else 0) ∧
      (s.after index t).times.spans = s.times.spans ++ new := by
  cases timedStep_after s index t with
  | bar _ ht _ e => exact ⟨[], by rw [ht]; rfl, by rw [e, spans_openMeasure, List.append_nil]⟩
  | switch m _ ht _ e => exact ⟨[], by rw [ht]; rfl, by rw [e, spans_setMode, List.append_nil]⟩
  | root d _ ht _ e =>
    obtain ⟨offset, elapsed, position, hτ⟩ := times_addRoot index d s
    exact ⟨[.ofLength d offset], by rw [ht]; rfl, by rw [e, hτ]⟩
  | idle _ ht _ e => exact ⟨[], by rw [ht]; rfl, by rw [e, List.append_nil]⟩

/-- Some tokens add as many trees as there are tree tokens among them. -/
theorem spans_afterAll (s : BuilderState) (index : Nat) (ts : List Token) :
    ∃ new, new.length = treeCount ts ∧
      (s.afterAll index ts).times.spans = s.times.spans ++ new := by
  induction ts generalizing s index with
  | nil => exact ⟨[], rfl, (List.append_nil _).symm⟩
  | cons t rest ih =>
    obtain ⟨first, hf, e⟩ := spans_after s index t
    obtain ⟨more, hm, e'⟩ := ih (s.after index t) (index + 1)
    refine ⟨first ++ more, ?_, ?_⟩
    · rw [List.length_append, hf, hm, treeCount, treeCount, List.countP_cons, Nat.add_comm]
    · rw [afterAll, e', e, List.append_assoc]

theorem length_spans_reached (ts : List Token) :
    (reached ts).times.spans.length = treeCount ts := by
  obtain ⟨new, hl, e⟩ := spans_afterAll {} 0 ts
  rw [reached, e, List.length_append, hl]
  exact Nat.zero_add _

theorem map_span_toScore (s : BuilderState) : s.toScore.forest.map Tree.span = s.times.spans := by
  simp only [toScore, forest_closeMeasure, List.map_map]
  exact List.map_congr_left fun t _ => congrArg Node.span (Tree.label_normalize t)

end BuilderState

open BuilderState

section Score

variable {before ts rest : List Token} {score : Score}

/-- **Trees keep the time they were given**, and those that a part of a stream adds come right
behind those of the tokens before it. -/
theorem spans_reached_append (hb : build false (before ++ ts ++ rest) = .ok score) :
    (reached (before ++ ts)).times.spans =
      (reached before).times.spans ++ (score.forest.added before ts).map Tree.span := by
  obtain ⟨-, rfl⟩ := build_lenient_eq_ok.mp hb
  obtain ⟨new, hl, e⟩ := spans_afterAll (reached before) before.length ts
  obtain ⟨more, -, e'⟩ := spans_afterAll (reached (before ++ ts)) (before ++ ts).length rest
  rw [← reached_append] at e e'
  rw [Forest.added, List.map_take, List.map_drop, map_span_toScore, e', e, List.append_assoc,
    ← length_spans_reached before, List.drop_left, ← hl, List.take_left]

/-- The first trees of a score are those that the first tokens have added. -/
theorem spans_reached (hb : build false (ts ++ rest) = .ok score) :
    (reached ts).times.spans = (score.forest.take (treeCount ts)).map Tree.span :=
  @spans_reached_append [] ts rest score hb

/-- The tree that a token adds stands behind those of the tokens before it. -/
theorem exists_tree_of_spans {t : Token} (hb : build false (before ++ t :: rest) = .ok score)
    (ht : t.startsTree = true) {s : Span}
    (hs : (reached (before ++ [t])).times.spans = (reached before).times.spans ++ [s]) :
    ∃ tree, score.forest[treeCount before]? = some tree ∧ tree.span = s := by
  rw [List.append_cons] at hb
  have hn : treeCount (before ++ [t]) = treeCount before + 1 := by
    rw [treeCount_concat, if_pos ht]
  have h := congrArg (·[treeCount before]?) (hs.symm.trans (spans_reached hb))
  rw [hn, ← length_spans_reached, List.getElem?_concat_length, List.getElem?_map,
    List.getElem?_take_of_succ] at h
  obtain ⟨tree, hf, he⟩ := Option.map_eq_some_iff.mp h.symm
  exact ⟨tree, by rw [← length_spans_reached]; exact hf, he⟩

/-- **A closed measure never changes.** Where the next measure is opened, or the stream ends, the
current measure gets its place in the score. -/
theorem getElem?_measures_of_close (hb : build false (ts ++ rest) = .ok score)
    (hr : ∀ t ∈ rest.head?, t.opensMeasure = true) {k : Nat} (hk : measureCount ts = k + 1) :
    score.measures[k]? = some
      { number := k + 1
        offset := (reached ts).measureStart
        duration := (reached ts).elapsed } := by
  obtain ⟨-, rfl⟩ := build_lenient_eq_ok.mp hb
  rcases measures_reached ts with ⟨h0, -⟩ | ⟨ms, hl, hms⟩
  · omega
  have hc : (reached ts).closeMeasure.measures <+: (reached (ts ++ rest)).toScore.measures := by
    cases rest with
    | nil => exact (List.append_nil ts).symm ▸ List.prefix_rfl
    | cons t rest =>
      have he : (reached (ts ++ [t])).closed = (reached ts).closeMeasure.measures := by
        rw [reached_concat, after_of_instruction? (Token.instruction?_of_opensMeasure (hr t rfl))]
        exact closed_openMeasure _
      have hp := closed_afterAll_isPrefix (reached (ts ++ [t])) (ts ++ [t]).length rest
      rw [← reached_append, ← List.append_cons, he] at hp
      exact hp.trans (closed_isPrefix_closeMeasure _)
  obtain ⟨more, hmore⟩ := hc
  obtain rfl : ms.length = k := by omega
  rw [← hmore, closeMeasure_of_concat hms, List.append_assoc, List.getElem?_append_right (by simp)]
  simp

/-- The measures of a score lie back to back. -/
theorem tiles_measures (hb : build false ts = .ok score) :
    Tiles .zero (score.measures.map Measure.span) (reached ts).closeMeasure.measureStart := by
  obtain ⟨-, rfl⟩ := build_lenient_eq_ok.mp hb
  exact tiles_closeMeasure (tiles_closed ts)

/-- The measure that is current behind some tokens is in the score, and starts where it starts. -/
theorem exists_measure_of_count (hb : build false (ts ++ rest) = .ok score) {k : Nat}
    (hk : measureCount ts = k + 1) :
    ∃ m, score.measures[k]? = some m ∧ m.offset = (reached ts).measureStart := by
  have hs : rest = rest.takeWhile (fun t => !t.opensMeasure) ++
      rest.dropWhile (fun t => !t.opensMeasure) := List.takeWhile_append_dropWhile.symm
  have hi : ∀ t ∈ rest.takeWhile (fun t => !t.opensMeasure), t.opensMeasure = false := by
    intro t ht
    simpa using List.all_eq_true.mp List.all_takeWhile t ht
  have hr : ∀ t ∈ (rest.dropWhile (fun t => !t.opensMeasure)).head?, t.opensMeasure = true := by
    intro t ht
    simpa [Option.mem_def.mp ht] using List.head?_dropWhile_not (fun t => !t.opensMeasure) rest
  rw [hs, ← List.append_assoc] at hb
  have hc : measureCount (ts ++ rest.takeWhile (fun t => !t.opensMeasure)) = k + 1 := by
    rw [measureCount_append, hk, measureCount_eq_zero.mpr hi]
  exact ⟨_, getElem?_measures_of_close hb hr hc, measureStart_reached_append hi⟩

end Score

end RhythmTree
