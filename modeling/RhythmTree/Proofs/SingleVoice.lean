import Mathlib.Data.List.DropRight
import RhythmTree.Proofs.Plain
import RhythmTree.Proofs.Timeline

/-!
# Streams of one voice

In a stream of one voice every measure is filled by trees that follow one another. Then three
accounts of time agree at every point of the stream: the start of the measure together with the time
elapsed in it, the position of the builder, and the end of the latest tree.

* `SingleVoice`: the streams of one voice.
* `onLine_reached`: the accounts agree.
* `single_voice_tiles`: **the trees of such a stream tile the time of the score, the trees of each
  measure tile the measure, and the leaves tile the time of the score if all weights are positive.**
-/

namespace RhythmTree

open BuilderState

/-! ### Streams of one voice -/

/-- Every item of a list is right behind the items before it. -/
def EachAfter {α : Type} (P : List α → α → Prop) (xs : List α) : Prop :=
  ∀ k (h : k < xs.length), P (xs.take k) xs[k]

instance {α : Type} (P : List α → α → Prop) [∀ xs x, Decidable (P xs x)] (xs : List α) :
    Decidable (EachAfter P xs) :=
  inferInstanceAs (Decidable (∀ k (h : k < xs.length), P (xs.take k) xs[k]))

theorem EachAfter.of_append {α : Type} {P : List α → α → Prop} {xs ys : List α}
    (h : EachAfter P (xs ++ ys)) : EachAfter P xs := by
  intro k hk
  have hp := h k (by rw [List.length_append]; omega)
  rw [List.take_append_of_le_length (by omega), List.getElem_append_left hk] at hp
  exact hp

theorem EachAfter.last {α : Type} {P : List α → α → Prop} {xs : List α} {x : α}
    (h : EachAfter P (xs ++ [x])) : P xs x := by
  have hp := h xs.length (by simp)
  rw [List.take_left, List.getElem_concat_length rfl] at hp
  exact hp

/-- The tokens behind the last one that opens a measure. -/
def sinceBar (ts : List Token) : List Token := ts.rtakeWhile fun t => !t.opensMeasure

theorem sinceBar_concat (ts : List Token) (t : Token) :
    sinceBar (ts ++ [t]) = if t.opensMeasure then [] else sinceBar ts ++ [t] := by
  rw [sinceBar, List.rtakeWhile_concat]
  cases t.opensMeasure with
  | true => rfl
  | false => rfl

/-- A stream of one voice. -/
structure SingleVoice (ts : List Token) : Prop where
  /-- A measure is opened before the first tree. -/
  bar_first : EachAfter (fun before t => t.startsTree = true → measureCount before ≠ 0) ts
  /-- No token switches to decrement mode. -/
  no_decrement : ∀ t ∈ ts, t.mode? ≠ some .decrement
  /-- Behind the first tree of a measure no token of the measure switches back to its start. -/
  no_return : EachAfter (fun before t =>
    t.mode? = some .measure → treeCount (sinceBar before) = 0) ts
  /-- Every tree but the first of its measure is added in increment mode. -/
  increments : EachAfter (fun before t => t.startsTree = true →
    treeCount (sinceBar before) ≠ 0 → (reached before).mode = .increment) ts

namespace SingleVoice

variable {ts us : List Token} {t : Token}

theorem of_append (h : SingleVoice (ts ++ us)) : SingleVoice ts :=
  ⟨h.bar_first.of_append, fun t ht => h.no_decrement t (List.mem_append_left us ht),
    h.no_return.of_append, h.increments.of_append⟩

/-- Without a measure there is no tree. -/
theorem treeCount_eq_zero (h : SingleVoice ts) (hm : measureCount ts = 0) : treeCount ts = 0 := by
  induction ts using List.reverseRecOn with
  | nil => rfl
  | append_singleton ts t ih =>
    rw [measureCount_concat] at hm
    rw [treeCount_concat, ih h.of_append (by omega)]
    cases ht : t.startsTree with
    | true => exact absurd (by omega) (h.bar_first.last ht)
    | false => rfl

theorem fresh_of_measures_eq_nil (h : SingleVoice ts) (hn : (reached ts).measures = []) :
    treeCount (sinceBar ts) = 0 := by
  rcases measures_reached ts with ⟨hm, -, -⟩ | ⟨ms, -, hms⟩
  · have hs := (List.rtakeWhile_suffix (fun t : Token => !t.opensMeasure) ts).sublist
    exact Nat.le_zero.mp (h.treeCount_eq_zero hm ▸ hs.countP_le)
  · rw [hms] at hn
    exact absurd hn (by simp)

end SingleVoice

theorem treeCount_sinceBar_concat {ts : List Token} {t : Token} (ho : t.opensMeasure = false)
    (ht : t.startsTree = false) : treeCount (sinceBar (ts ++ [t])) = treeCount (sinceBar ts) := by
  rw [sinceBar_concat, ho, if_neg Bool.false_ne_true, treeCount_concat, ht]
  rfl

/-! ### The accounts of time -/

/-- The trees tile the time up to the position, which is as far as the measures and the time elapsed
in the current one go. Nothing has elapsed as long as the current measure is fresh. -/
structure OnLine (fresh : Prop) (τ : Times) : Prop where
  mode : τ.mode ≠ .decrement
  tiles : Tiles .zero τ.spans τ.position
  position : τ.measureStart + τ.elapsed = τ.position
  elapsed : fresh → τ.elapsed = .zero

namespace OnLine

variable {fresh : Prop} {s : BuilderState}

/-- The builder is at the start of a fresh measure. -/
theorem measureStart_eq (h : OnLine fresh s.times) (h0 : fresh) : s.measureStart = s.position := by
  have hp : s.measureStart + s.elapsed = s.position := h.position
  have he : s.elapsed = .zero := h.elapsed h0
  rw [← hp, he, Duration.add_zero]

/-- The next measure starts at the position. -/
theorem measureStart_closeMeasure (h : OnLine fresh s.times) (h0 : s.measures = [] → fresh) :
    s.closeMeasure.measureStart = s.position := by
  rcases List.eq_nil_or_concat s.measures with hn | ⟨ms, m, hms⟩
  · rw [closeMeasure_of_nil hn]
    exact h.measureStart_eq (h0 hn)
  · rw [List.concat_eq_append] at hms
    rw [closeMeasure_of_concat hms]
    exact h.position

theorem openMeasure (h : OnLine fresh s.times) (h0 : s.measures = [] → fresh) :
    OnLine True s.openMeasure.times := by
  have hp : s.closeMeasure.position = s.position := position_openMeasure s
  refine ⟨StackMode.noConfusion, ?_, ?_, fun _ => rfl⟩
  · show Tiles .zero s.openMeasure.times.spans s.closeMeasure.position
    rw [spans_openMeasure, hp]
    exact h.tiles
  · show s.closeMeasure.measureStart + .zero = s.closeMeasure.position
    rw [h.measureStart_closeMeasure h0, hp, Duration.add_zero]

theorem setMode_increment (h : OnLine fresh s.times) :
    OnLine fresh (s.setMode .increment).times :=
  ⟨StackMode.noConfusion, h.tiles, h.position, h.elapsed⟩

/-- In a fresh measure, going back to its start changes nothing. -/
theorem setMode_measure (h : OnLine fresh s.times) (h0 : fresh) :
    OnLine fresh (s.setMode .measure).times := by
  refine ⟨StackMode.noConfusion, h.tiles, ?_, fun _ => rfl⟩
  show s.measureStart + .zero = s.position
  rw [Duration.add_zero]
  exact h.measureStart_eq h0

/-- A tree comes to the position, unless it is added in the mode of the measure in a measure that is
not fresh. -/
theorem addRoot (h : OnLine fresh s.times) (h0 : s.mode = .measure → fresh) (index : Nat)
    (d : Duration) : OnLine False (s.addRoot index d).times := by
  have ht : (s.addRoot index d).times = { s.times with
      elapsed := s.elapsed + d
      position := s.position + d
      spans := s.times.spans ++ [.ofLength d s.position] } := by
    cases hm : s.mode with
    | measure =>
      rw [addRoot_of_measure hm, times_addRootAt]
      simp only [times, h.measureStart_eq (h0 hm)]
    | increment => rw [addRoot_of_increment hm, times_addRootAt]
    | decrement => exact absurd hm h.mode
  rw [ht]
  refine ⟨h.mode, h.tiles.concat rfl, ?_, False.elim⟩
  show s.measureStart + (s.elapsed + d) = s.position + d
  rw [← Duration.add_assoc]
  exact congrArg (· + d) h.position

end OnLine

/-- **In a stream of one voice the accounts of time agree.** -/
theorem onLine_reached {ts : List Token} (h : SingleVoice ts) :
    OnLine (treeCount (sinceBar ts) = 0) (reached ts).times := by
  induction ts using List.reverseRecOn with
  | nil => exact ⟨StackMode.noConfusion, rfl, Duration.add_zero _, fun _ => rfl⟩
  | append_singleton ts t ih =>
    have hl := ih h.of_append
    rw [reached_concat]
    cases timedStep_after (reached ts) ts.length t with
    | bar ho _ _ e =>
      have hf : treeCount (sinceBar (ts ++ [t])) = 0 := by
        rw [sinceBar_concat, if_pos ho]
        rfl
      rw [e, eq_true hf]
      exact hl.openMeasure h.of_append.fresh_of_measures_eq_nil
    | switch m ho ht hm e =>
      rw [e, treeCount_sinceBar_concat ho ht]
      cases m with
      | measure => exact hl.setMode_measure (h.no_return.last hm)
      | increment => exact hl.setMode_increment
      | decrement => exact absurd hm (h.no_decrement t (by simp))
    | root d ho ht _ e =>
      have h0 : (reached ts).mode = .measure → treeCount (sinceBar ts) = 0 := by
        intro hm
        by_contra h0
        rw [h.increments.last ht h0] at hm
        cases hm
      have hf : ¬ treeCount (sinceBar (ts ++ [t])) = 0 := by
        rw [sinceBar_concat, ho, if_neg Bool.false_ne_true, treeCount_concat, if_pos ht]
        exact Nat.succ_ne_zero _
      rw [e, eq_false hf]
      exact hl.addRoot h0 ts.length d
    | idle ho ht _ e =>
      rw [e, treeCount_sinceBar_concat ho ht]
      exact hl

/-! ### The score of one voice -/

section

variable {ts : List Token} {score : Score}

/-- The trees of the score tile the time up to the position of the builder. -/
theorem tiles_forest (h : SingleVoice ts) (hb : build false ts = .ok score) :
    Tiles .zero (score.forest.map Tree.span) (reached ts).position := by
  obtain ⟨-, rfl⟩ := build_lenient_eq_ok.mp hb
  rw [map_span_toScore]
  exact (onLine_reached h).tiles

/-- No measure and no tree ends later than the latest tree. -/
theorem totalDuration_eq_position (h : SingleVoice ts) (hb : build false ts = .ok score) :
    score.totalDuration = (reached ts).position := by
  have hf := tiles_forest h hb
  have hm := (tiles_measures hb).within
  rw [(onLine_reached h).measureStart_closeMeasure h.fresh_of_measures_eq_nil] at hm
  apply Duration.le_antisymm
  · refine Duration.foldl_max_le (Duration.zero_le _) ?_
    intro d hd
    rcases List.mem_append.mp hd with hd | hd
    · obtain ⟨m, hmem, rfl⟩ := List.mem_map.mp hd
      exact (hm m.span (List.mem_map_of_mem hmem)).2
    · obtain ⟨t, hmem, rfl⟩ := List.mem_map.mp hd
      exact (hf.within t.span (List.mem_map_of_mem hmem)).2
  · by_cases hn : score.forest.map Tree.span = []
    · rw [hn] at hf
      rw [← hf]
      exact Duration.zero_le _
    · obtain ⟨s, hs, he⟩ := hf.exists_stop hn
      obtain ⟨t, ht, rfl⟩ := List.mem_map.mp hs
      rw [← he]
      exact Duration.mem_le_foldl_max (List.mem_append_right _ (List.mem_map_of_mem ht)) _

/-- The trees of a measure tile the measure. -/
theorem tiles_measure {before inside after : List Token} {start : Token}
    (h : SingleVoice (before ++ [start] ++ inside ++ after))
    (hb : build false (before ++ [start] ++ inside ++ after) = .ok score)
    (hs : start.opensMeasure = true) (hi : ∀ t ∈ inside, t.opensMeasure = false)
    (ha : ∀ t ∈ after.head?, t.opensMeasure = true) :
    ∃ m, score.measures[measureCount before]? = some m ∧
      Tiles m.offset ((score.forest.added (before ++ [start]) inside).map Tree.span) m.stop := by
  have h₁ := onLine_reached h.of_append
  have h₀ := onLine_reached h.of_append.of_append
  have hf : treeCount (sinceBar (before ++ [start])) = 0 := by
    rw [sinceBar_concat, if_pos hs]
    rfl
  have hk : measureCount (before ++ [start] ++ inside) = measureCount before + 1 := by
    rw [measureCount_append, measureCount_concat, if_pos hs, measureCount_eq_zero.mpr hi]
  refine ⟨_, getElem?_measures_of_close hb ha hk, ?_⟩
  have ht := h₁.tiles
  rw [spans_reached_append hb] at ht
  have hm := ht.of_append h₀.tiles
  have hstart : (reached (before ++ [start] ++ inside)).measureStart =
      (reached (before ++ [start])).position := by
    rw [measureStart_reached_append hi, h₀.measureStart_eq hf]
  have hstop : (reached (before ++ [start] ++ inside)).measureStart +
      (reached (before ++ [start] ++ inside)).elapsed =
        (reached (before ++ [start] ++ inside)).position := h₁.position
  show Tiles (reached (before ++ [start] ++ inside)).measureStart _
    ((reached (before ++ [start] ++ inside)).measureStart +
      (reached (before ++ [start] ++ inside)).elapsed)
  rw [hstop, hstart]
  exact hm

/-- The leaves tile the time of the score if all weights below the roots are positive. -/
theorem tiles_leaves {stop : Duration} (hb : build false ts = .ok score)
    (hf : Tiles .zero (score.forest.map Tree.span) stop)
    (hp : ∀ t ∈ score.forest, t.IsPositive) :
    Tiles .zero (score.forest.leaves.map Node.span) stop := by
  obtain ⟨-, rfl⟩ := build_lenient_eq_ok.mp hb
  refine Tree.tiles_leavesAll hf ?_
  intro t ht
  obtain ⟨u, -, rfl⟩ := List.mem_map.mp ht
  rw [Tree.label_normalize]
  exact Tree.tiles_leaves_normalize (Tree.isPositive_normalize.mp (hp _ ht))

/-- **A stream of one voice tiles time.** Its trees lie back to back from the start of the piece to
the end of the score, so that the score lasts as long as all trees together; the trees of a measure
lie back to back from its start to its end; and if all weights below the roots are positive, the
leaves of all trees lie back to back from the start of the piece to the end of the score. -/
theorem single_voice_tiles (h : SingleVoice ts) (hb : build false ts = .ok score) :
    Tiles .zero (score.forest.map Tree.span) score.totalDuration ∧
      score.totalDuration = Duration.sum (score.forest.map fun t => t.label.duration) ∧
      (∀ (before inside after : List Token) (start : Token),
        ts = before ++ [start] ++ inside ++ after → start.opensMeasure = true →
        (∀ t ∈ inside, t.opensMeasure = false) → (∀ t ∈ after.head?, t.opensMeasure = true) →
          ∃ m, score.measures[measureCount before]? = some m ∧
            Tiles m.offset ((score.forest.added (before ++ [start]) inside).map Tree.span)
              m.stop) ∧
      ((∀ t ∈ score.forest, t.IsPositive) →
        Tiles .zero (score.forest.leaves.map Node.span) score.totalDuration) := by
  have hf := tiles_forest h hb
  rw [← totalDuration_eq_position h hb] at hf
  refine ⟨hf, ?_, ?_, fun hp => tiles_leaves hb hf hp⟩
  · rw [← totalLength_map_span, ← hf.add_totalLength, Duration.zero_add]
  · rintro before inside after start rfl hs hi ha
    exact tiles_measure h hb hs hi ha

end

open Token in
/-- Two measures of one voice, the first of which has a tree of two leaves. -/
def twoMeasures : List Token :=
  [bar, root (.ofNat 3), leaf 2 (.below 0), leaf 1 (.below 0), switch .increment,
    root (.ofNat 1), bar, root (.ofNat 2)]

theorem single_voice_tiles_twoMeasures :
    ∃ score, build false twoMeasures = .ok score ∧
      Tiles .zero (score.forest.map Tree.span) score.totalDuration ∧
      score.totalDuration = Duration.sum (score.forest.map fun t => t.label.duration) ∧
      (∃ m, score.measures[0]? = some m ∧
        Tiles m.offset ((score.forest.added [Token.bar] (twoMeasures.tail.take 5)).map Tree.span)
          m.stop) ∧
      Tiles .zero (score.forest.leaves.map Node.span) score.totalDuration := by
  have hv : SingleVoice twoMeasures :=
    ⟨by decide +kernel, by decide +kernel, by decide +kernel, by decide +kernel⟩
  have hw : ∀ t ∈ twoMeasures, t.isWellFormed = true := by decide +kernel
  have hb : build false twoMeasures = .ok (reached twoMeasures).toScore :=
    build_lenient_eq_ok.mpr ⟨hw, rfl⟩
  have hp : ∀ t ∈ (reached twoMeasures).toScore.forest, Tree.IsPositive t := by
    unfold Tree.IsPositive
    decide +kernel
  obtain ⟨h₁, h₂, h₃, h₄⟩ := single_voice_tiles hv hb
  refine ⟨_, hb, h₁, h₂, ?_, h₄ hp⟩
  exact h₃ [] (twoMeasures.tail.take 5) (twoMeasures.drop 6) Token.bar rfl (by decide +kernel)
    (by decide +kernel) (by decide +kernel)

end RhythmTree
