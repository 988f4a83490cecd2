import Mathlib.Data.List.TakeWhile
import RhythmTree.Proofs.Records
import RhythmTree.Proofs.Timeline

/-!
# The sounding measure

The measures of a parsed score lie back to back from the start of the piece. So every point of time
before the end of the last one is in exactly one measure, and the search for the last measure that
does not start later finds it: measures of no length end where they start and are passed over.

* `Tiles.exists_split`: before the end of a tiling every point lies in one of its spans.
* `Score.measureAt?_of_split`, `Score.measureAt?_of_forall_le`: what the search finds.
* `sounding_measure`: **the measures of a parsed score divide the piece among them.**
-/

namespace RhythmTree

namespace Tiles

variable {a b t : Duration} {s : Span} {spans xs ys : List Span}

/-- Every point before the end of a tiling lies in one of its spans, before the end of that span. -/
theorem exists_split (h : Tiles a spans b) (ha : a ≤ t) (hb : t < b) :
    ∃ xs s ys, spans = xs ++ s :: ys ∧ s.start ≤ t ∧ t < s.stop := by
  induction spans generalizing a with
  | nil =>
    obtain rfl := h
    exact absurd hb (Duration.not_lt.mpr ha)
  | cons s rest ih =>
    obtain ⟨rfl, hr⟩ := h
    by_cases hs : t < s.stop
    · exact ⟨[], s, rest, rfl, ha, hs⟩
    · obtain ⟨xs, s', ys, rfl, hst, hts⟩ := ih hr (Duration.not_lt.mp hs)
      exact ⟨s :: xs, s', ys, rfl, hst, hts⟩

theorem stop_le_start (h : Tiles a (xs ++ s :: ys) b) : ∀ x ∈ xs, x.stop ≤ s.start := by
  intro x hx
  obtain ⟨c, hxs, rfl, -⟩ := tiles_append.mp h
  exact (hxs.within x hx).2

theorem start_le_start (h : Tiles a (xs ++ s :: ys) b) : ∀ y ∈ ys, s.stop ≤ y.start := by
  intro y hy
  obtain ⟨c, -, -, hys⟩ := tiles_append.mp h
  exact (hys.within y hy).1

theorem stop_of_getLast? (h : Tiles a spans b) (hs : spans.getLast? = some s) : s.stop = b := by
  obtain ⟨xs, rfl⟩ := List.getLast?_eq_some_iff.mp hs
  obtain ⟨c, -, -, hb⟩ := tiles_append.mp h
  exact hb

end Tiles

namespace Score

variable {s : Score} {m : Measure} {before after : List Measure} {stop t : Duration}

/-- Of all measures of a score, this one alone starts at a time or earlier and ends later. -/
def SoleAt (s : Score) (t : Duration) (m : Measure) : Prop :=
  ∃ before after, s.measures = before ++ m :: after ∧ m.offset ≤ t ∧ t < m.stop ∧
    ∀ n ∈ before ++ after, ¬ (n.offset ≤ t ∧ t < n.stop)

/-- The search stops at the first measure that starts later. -/
theorem measureAt?_of_split (hs : s.measures = before ++ m :: after)
    (hb : ∀ n ∈ before, n.offset ≤ t) (hm : m.offset ≤ t) (ha : ∀ n ∈ after, t < n.offset)
    (ht : t ≤ m.stop) : s.measureAt? t = some m := by
  have hafter : after.takeWhile (fun n => n.offset ≤ t) = [] := by
    cases after with
    | nil => rfl
    | cons n rest =>
      have hn : ¬ n.offset ≤ t := Duration.not_le.mpr (ha n List.mem_cons_self)
      exact List.takeWhile_cons_of_neg (by simpa using hn)
  rw [measureAt?, hs, List.takeWhile_append_of_pos (by simpa using hb),
    List.takeWhile_cons_of_pos (by simpa using hm), hafter, List.getLast?_concat]
  exact Option.filter_some_pos (by simpa using ht)

/-- If no measure starts later, the search comes to the last one. -/
theorem measureAt?_of_forall_le (h : ∀ n ∈ s.measures, n.offset ≤ t) :
    s.measureAt? t = s.measures.getLast?.filter fun m => t ≤ m.stop := by
  have hall : s.measures.takeWhile (fun n => n.offset ≤ t) = s.measures :=
    List.takeWhile_eq_self_iff.mpr (by simpa using h)
  rw [measureAt?, hall]

theorem stop_of_getLast? (h : Tiles .zero (s.measures.map Measure.span) stop)
    (hm : s.measures.getLast? = some m) : m.stop = stop := by
  have hl : (s.measures.map Measure.span).getLast? = some m.span := by
    rw [List.getLast?_map, hm]
    rfl
  exact h.stop_of_getLast? hl

/-- Before the end of the last measure there is one measure at every point of time. -/
theorem exists_measureAt?_of_lt (h : Tiles .zero (s.measures.map Measure.span) stop)
    (ht : t < stop) : ∃ m, s.measureAt? t = some m ∧ s.SoleAt t m := by
  obtain ⟨xs, x, ys, hs, hxt, htx⟩ := h.exists_split (Duration.zero_le t) ht
  obtain ⟨before, rest, hm, rfl, hrest⟩ := List.map_eq_append_iff.mp hs
  obtain ⟨m, after, rfl, rfl, rfl⟩ := List.map_eq_cons_iff.mp hrest
  rw [hs] at h
  -- the measures before this one stop at its start or earlier, those behind start at its end
  have hbefore : ∀ n ∈ before, n.stop ≤ t := by
    intro n hn
    exact Duration.le_trans (h.stop_le_start _ (List.mem_map_of_mem hn)) hxt
  have hafter : ∀ n ∈ after, t < n.offset := by
    intro n hn
    exact Duration.lt_of_lt_of_le htx (h.start_le_start _ (List.mem_map_of_mem hn))
  refine ⟨m, ?_, before, after, hm, hxt, htx, ?_⟩
  · refine measureAt?_of_split hm ?_ hxt hafter (Duration.le_of_lt htx)
    intro n hn
    exact Duration.le_trans n.span.start_le_stop (hbefore n hn)
  · rintro n hn ⟨hnt, htn⟩
    rcases List.mem_append.mp hn with hn | hn
    · exact Duration.not_lt.mpr (hbefore n hn) htn
    · exact Duration.not_le.mpr (hafter n hn) hnt

/-- From the end of the last measure on there is no measure but the last one. -/
theorem measureAt?_of_le (h : Tiles .zero (s.measures.map Measure.span) stop) (ht : stop ≤ t) :
    s.measureAt? t = s.measures.getLast?.filter fun m => t ≤ m.stop := by
  apply measureAt?_of_forall_le
  intro n hn
  have hw := (h.within n.span (List.mem_map_of_mem hn)).2
  exact Duration.le_trans n.span.start_le_stop (Duration.le_trans hw ht)

end Score

/-- **The measures of a parsed score divide the piece among them.** At a point of time before the
end of the last measure sounds the one measure that starts there or earlier and ends later, at this
end sounds the last measure, and behind it, or if there is no measure, none. Measures that have no
length may stand anywhere. -/
theorem sounding_measure {strict : Bool} {raw : Document} {score : Score}
    (h : parse strict raw = .ok score) (t : Duration) :
    (score.measureAt? t = none ↔
        score.measures = [] ∨ ∃ last, score.measures.getLast? = some last ∧ last.stop < t) ∧
      ∀ last, score.measures.getLast? = some last →
        (t < last.stop → ∃ m, score.measureAt? t = some m ∧ score.SoleAt t m) ∧
        (t = last.stop → score.measureAt? t = some last) := by
  obtain ⟨ts, hb⟩ := exists_build_of_parse h
  have htiles := tiles_measures (build_lenient_of_build hb)
  have inside : ∀ last, score.measures.getLast? = some last → t < last.stop →
      ∃ m, score.measureAt? t = some m ∧ score.SoleAt t m := by
    intro last hl ht
    rw [Score.stop_of_getLast? htiles hl] at ht
    exact Score.exists_measureAt?_of_lt htiles ht
  have behind : ∀ last, score.measures.getLast? = some last → last.stop ≤ t →
      score.measureAt? t = if t ≤ last.stop then some last else none := by
    intro last hl ht
    rw [Score.stop_of_getLast? htiles hl] at ht
    rw [Score.measureAt?_of_le htiles ht, hl, Option.filter_some]
    simp only [decide_eq_true_eq]
  refine ⟨⟨?_, ?_⟩, ?_⟩
  · intro hn
    cases hl : score.measures.getLast? with
    | none => exact .inl (List.getLast?_eq_none_iff.mp hl)
    | some last =>
      refine .inr ⟨last, rfl, ?_⟩
      by_contra ht
      have hle : t ≤ last.stop := Duration.not_lt.mp ht
      by_cases hlt : t < last.stop
      · obtain ⟨m, hm, -⟩ := inside last hl hlt
        rw [hn] at hm
        cases hm
      · rw [behind last hl (Duration.not_lt.mp hlt), if_pos hle] at hn
        cases hn
  · rintro (hnil | ⟨last, hl, ht⟩)
    · rw [Score.measureAt?, hnil]
      rfl
    · rw [behind last hl (Duration.le_of_lt ht), if_neg (Duration.not_le.mpr ht)]
  · intro last hl
    refine ⟨inside last hl, ?_⟩
    intro ht
    rw [behind last hl (ht ▸ Duration.le_refl _), if_pos (ht ▸ Duration.le_refl _)]

/-- The item of a stream that opens a measure. -/
def barItem : Document :=
  .record [("kind", .text "string"), ("identifier", .text "Measure"), ("value", .text "")]

/-- The item of a stream that adds a tree. -/
def rootItem (units : Int) : Document :=
  .record [("kind", .text "duration"), ("identifier", .text "RootNodeDuration"),
    ("value", .int units)]

/-- A measure of four units and one of two, each with an empty measure behind it. -/
def emptyBarsStream : Document :=
  .list [barItem, rootItem 4, barItem, barItem, rootItem 2, barItem]

theorem sounding_measure_emptyBarsStream :
    ∃ score, parse true emptyBarsStream = .ok score ∧
      score.measures = [⟨1, .zero, .ofNat 4⟩, ⟨2, .ofNat 4, .zero⟩, ⟨3, .ofNat 4, .ofNat 2⟩,
        ⟨4, .ofNat 6, .zero⟩] ∧
      (∃ m, score.measureAt? (.ofNat 4) = some m ∧ score.SoleAt (.ofNat 4) m) ∧
      score.measureAt? (.ofNat 6) = some ⟨4, .ofNat 6, .zero⟩ ∧
      score.measureAt? (.ofNat 7) = none := by
  obtain ⟨score, hp, hm⟩ : ∃ score, parse true emptyBarsStream = .ok score ∧
      score.measures = [⟨1, .zero, .ofNat 4⟩, ⟨2, .ofNat 4, .zero⟩, ⟨3, .ofNat 4, .ofNat 2⟩,
        ⟨4, .ofNat 6, .zero⟩] := ⟨_, rfl, by decide +kernel⟩
  have hl : score.measures.getLast? = some ⟨4, .ofNat 6, .zero⟩ := by rw [hm]; rfl
  refine ⟨score, hp, hm, ?_, ?_, ?_⟩
  · exact ((sounding_measure hp (.ofNat 4)).2 _ hl).1 (by decide +kernel)
  · exact ((sounding_measure hp (.ofNat 6)).2 _ hl).2 (by decide +kernel)
  · exact (sounding_measure hp (.ofNat 7)).1.mpr (.inr ⟨_, hl, by decide +kernel⟩)

end RhythmTree
