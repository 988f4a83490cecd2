import Mathlib.Data.List.DropRight
import RhythmTree.Proofs.Plain
import RhythmTree.Proofs.Timeline

/-!
# Voices and their measure

A token that opens a measure, or that switches to the mode of the measure, takes the builder back to
the start of the measure and sets the elapsed time to zero. The trees behind such a token, up to the
next one, are a voice. The measure lasts as long as its last voice, so it need not hold the trees of
a longer voice before.

* `VoiceShape`: how the trees of a voice lie, and `VoiceShape.within_iff`: they lie inside the time
  that the voice takes from the start of the measure on exactly if the first of them starts there.
* `inVoice_reached`: the invariant along a voice.
* `voice_within_measure`: **the measure holds its last voice, and every voice that is no longer, if
  the voice starts with the measure.**
-/

namespace RhythmTree

open BuilderState

/-! ### Tokens of a voice -/

namespace Token

/-- A token that takes the builder back to the start of a measure. -/
def rewinds (t : Token) : Bool := t.opensMeasure || t.mode? = some .measure

/-- A token that neither goes back to the start of a measure nor stacks trees upon open nodes. -/
def staysInVoice (t : Token) : Bool := !t.rewinds && t.mode? != some .decrement

theorem staysInVoice_of_not_rewinds {t : Token} (h : t.rewinds = false)
    (hd : t.mode? ≠ some .decrement) : t.staysInVoice = true := by
  simp [staysInVoice, h, hd]

theorem opensMeasure_of_staysInVoice {t : Token} (h : t.staysInVoice = true) :
    t.opensMeasure = false := by
  unfold staysInVoice rewinds at h
  cases ho : t.opensMeasure with
  | false => rfl
  | true => rw [ho] at h; cases h

theorem mode_of_staysInVoice {t : Token} (h : t.staysInVoice = true) {m : StackMode}
    (hm : t.mode? = some m) : m = .increment := by
  unfold staysInVoice rewinds at h
  rw [hm] at h
  cases m with
  | increment => rfl
  | _ => simp at h

end Token

/-- Behind a token that rewinds, the mode is that of the measure and no time has elapsed. -/
theorem BuilderState.after_rewinds {t : Token} (h : t.rewinds = true) (s : BuilderState)
    (index : Nat) : (s.after index t).mode = .measure ∧ (s.after index t).elapsed = .zero := by
  unfold Token.rewinds at h
  cases timedStep_after s index t with
  | bar _ _ _ e =>
    rw [e]
    exact ⟨rfl, rfl⟩
  | switch m ho _ hm e =>
    rw [ho, hm] at h
    obtain rfl : m = .measure := by simpa using h
    rw [e]
    exact ⟨rfl, rfl⟩
  | root d ho _ hm _ =>
    rw [ho, hm] at h
    simp at h
  | idle ho _ hm _ =>
    rw [ho, hm] at h
    simp at h

/-! ### The shape of a voice -/

/-- How the spans of a voice lie, given where the measure starts and where the builder was when the
voice began. Either there are none, or the first starts with the measure and the others follow
inside the time that they take together, or they lie back to back from the old position on. -/
inductive VoiceShape (bar entry : Duration) : StackMode → List Span → Duration → Prop
  | empty {mode : StackMode} : VoiceShape bar entry mode [] entry
  | anchored {mode : StackMode} {spans : List Span} {position : Duration}
      (first : ∀ s ∈ spans.head?, s.start = bar)
      (within : Within bar spans (bar + totalLength spans))
      (le : bar ≤ position ∧ position ≤ bar + totalLength spans) :
      VoiceShape bar entry mode spans position
  | running {spans : List Span} {position : Duration} (h : Tiles entry spans position)
      (hn : spans ≠ []) : VoiceShape bar entry .increment spans position

namespace VoiceShape

variable {bar entry position : Duration} {mode : StackMode} {spans : List Span}

/-- A voice goes on in increment mode. -/
theorem increment (h : VoiceShape bar entry mode spans position) :
    VoiceShape bar entry .increment spans position := by
  cases h with
  | empty => exact .empty
  | anchored first within le => exact .anchored first within le
  | running h hn => exact .running h hn

/-- A span may start anywhere from the start of the measure to the end of the voice. -/
theorem anchored_concat (first : ∀ s ∈ spans.head?, s.start = bar)
    (within : Within bar spans (bar + totalLength spans)) {start : Duration}
    (hs : spans = [] → start = bar) (hb : bar ≤ start) (he : start ≤ bar + totalLength spans)
    (d : Duration) : VoiceShape bar entry mode (spans ++ [.ofLength d start]) (start + d) := by
  have ht : bar + totalLength (spans ++ [.ofLength d start]) = bar + totalLength spans + d := by
    rw [totalLength_concat, Span.length_ofLength, Duration.add_assoc]
  have hd : start + d ≤ bar + totalLength spans + d := Duration.add_le_add_right he d
  refine .anchored ?_ ?_ ⟨Duration.le_trans hb (Duration.le_add_right _ _), ht ▸ hd⟩
  · intro s hm
    cases spans with
    | nil =>
      obtain rfl : Span.ofLength d start = s := by simpa using hm
      exact hs rfl
    | cons x rest => exact first s hm
  · rw [ht]
    exact (within.mono (Duration.le_add_right _ _)).concat hb hd

/-- In the mode of the measure a span starts with the measure. -/
theorem concat_measure (h : VoiceShape bar entry .measure spans position) (d : Duration) :
    VoiceShape bar entry .measure (spans ++ [.ofLength d bar]) (bar + d) := by
  cases h with
  | empty =>
    exact anchored_concat (by simp) within_nil (fun _ => rfl) (Duration.le_refl _)
      (Duration.le_add_right _ _) d
  | anchored first within _ =>
    exact anchored_concat first within (fun _ => rfl) (Duration.le_refl _)
      (Duration.le_add_right _ _) d

/-- In increment mode a span starts at the position. -/
theorem concat_increment (h : VoiceShape bar entry .increment spans position) (d : Duration) :
    VoiceShape bar entry .increment (spans ++ [.ofLength d position]) (position + d) := by
  cases h with
  | empty => exact .running ⟨rfl, rfl⟩ (by simp)
  | anchored first within le =>
    refine anchored_concat first within ?_ le.1 le.2 d
    rintro rfl
    exact Duration.le_antisymm (Duration.add_zero bar ▸ le.2) le.1
  | running h hn => exact .running (h.concat rfl) (by simp)

/-- **A voice lies inside the time that it takes from the start of the measure on exactly if its
first span starts there.** -/
theorem within_iff (h : VoiceShape bar entry mode spans position) :
    Within bar spans (bar + totalLength spans) ↔ ∀ s ∈ spans.head?, s.start = bar := by
  cases h with
  | empty => exact iff_of_true within_nil (by simp)
  | anchored first within _ => exact iff_of_true within first
  | running h hn =>
    obtain ⟨x, rest, rfl⟩ := List.exists_cons_of_ne_nil hn
    have hx : x.start = entry := h.1
    have hp : entry + totalLength (x :: rest) = position := h.add_totalLength
    constructor
    · -- the last span stops at the position, which is as far from the entry as the voice lasts
      intro hw s hm
      obtain rfl : x = s := by simpa using hm
      obtain ⟨y, hy, hs⟩ := h.exists_stop hn
      have hle : entry + totalLength (x :: rest) ≤ bar + totalLength (x :: rest) := by
        rw [hp, ← hs]
        exact (hw y hy).2
      exact Duration.le_antisymm (hx ▸ Duration.le_of_add_le_add_right hle) (hw x (by simp)).1
    · intro hf
      obtain rfl : entry = bar := hx.symm.trans (hf x rfl)
      rw [hp]
      exact h.within

end VoiceShape

/-! ### Along a voice -/

/-- The times along a voice, behind the spans of the trees before it. -/
structure InVoice (bar entry : Duration) (earlier spans : List Span) (τ : Times) : Prop where
  mode : τ.mode ≠ .decrement
  measureStart : τ.measureStart = bar
  elapsed : τ.elapsed = totalLength spans
  spans_eq : τ.spans = earlier ++ spans
  shape : VoiceShape bar entry τ.mode spans τ.position

namespace InVoice

variable {bar entry : Duration} {earlier spans : List Span} {s : BuilderState}

/-- The mode puts a tree where the shape of the voice allows it, and the voice gets longer by it. -/
theorem addRoot (h : InVoice bar entry earlier spans s.times) (index : Nat) (d : Duration) :
    ∃ a, InVoice bar entry earlier (spans ++ [.ofLength d a]) (s.addRoot index d).times := by
  have he : ∀ a, s.elapsed + d = totalLength (spans ++ [.ofLength d a]) := by
    intro a
    rw [totalLength_concat, Span.length_ofLength]
    exact congrArg (· + d) h.elapsed
  have hs : ∀ a, s.times.spans ++ [.ofLength d a] = earlier ++ (spans ++ [.ofLength d a]) := by
    intro a
    rw [h.spans_eq, List.append_assoc]
  have hshape : VoiceShape bar entry s.mode spans s.position := h.shape
  cases hm : s.mode with
  | measure =>
    rw [hm] at hshape
    obtain rfl : s.measureStart = bar := h.measureStart
    refine ⟨s.measureStart, ?_⟩
    rw [addRoot_of_measure hm, times_addRootAt]
    refine ⟨h.mode, rfl, he _, hs _, ?_⟩
    show VoiceShape s.measureStart entry s.mode _ (s.measureStart + d)
    rw [hm]
    exact hshape.concat_measure d
  | increment =>
    rw [hm] at hshape
    refine ⟨s.position, ?_⟩
    rw [addRoot_of_increment hm, times_addRootAt]
    refine ⟨h.mode, h.measureStart, he _, hs _, ?_⟩
    show VoiceShape bar entry s.mode _ (s.position + d)
    rw [hm]
    exact hshape.concat_increment d
  | decrement => exact absurd hm h.mode

/-- A token of the voice keeps the times in shape. -/
theorem after (h : InVoice bar entry earlier spans s.times) {t : Token}
    (ht : t.staysInVoice = true) (index : Nat) :
    ∃ spans, InVoice bar entry earlier spans (s.after index t).times := by
  cases timedStep_after s index t with
  | bar ho _ _ _ =>
    rw [Token.opensMeasure_of_staysInVoice ht] at ho
    cases ho
  | switch m _ _ hm e =>
    obtain rfl := Token.mode_of_staysInVoice ht hm
    have hi : (s.setMode .increment).times.mode ≠ .decrement := StackMode.noConfusion
    rw [e]
    exact ⟨spans, hi, h.measureStart, h.elapsed, h.spans_eq, h.shape.increment⟩
  | root d _ _ _ e =>
    obtain ⟨a, ha⟩ := h.addRoot index d
    rw [e]
    exact ⟨_, ha⟩
  | idle _ _ _ e =>
    rw [e]
    exact ⟨spans, h⟩

end InVoice

/-- **The invariant along a voice.** -/
theorem inVoice_reached (before : List Token) {voice : List Token} {start : Token}
    (hs : start.rewinds = true) (hv : ∀ t ∈ voice, t.staysInVoice = true) :
    ∃ spans, InVoice (reached (before ++ [start])).measureStart
      (reached (before ++ [start])).position (reached (before ++ [start])).times.spans spans
      (reached (before ++ [start] ++ voice)).times := by
  induction voice using List.reverseRecOn with
  | nil =>
    obtain ⟨hm, he⟩ := after_rewinds hs (reached before) before.length
    rw [List.append_nil]
    refine ⟨[], ?_, rfl, ?_, by rw [List.append_nil], .empty⟩
    · rw [reached_concat]
      show ((reached before).after before.length start).mode ≠ .decrement
      rw [hm]
      exact StackMode.noConfusion
    · rw [reached_concat]
      exact he
  | append_singleton voice t ih =>
    obtain ⟨spans, h⟩ := ih fun u hu => hv u (by simp [hu])
    rw [← List.append_assoc, reached_concat (before ++ [start] ++ voice)]
    exact h.after (hv t (by simp)) _

/-! ### The latest voice -/

/-- The tokens behind the last one that rewinds. -/
def latestVoice (ts : List Token) : List Token := ts.rtakeWhile fun t => !t.rewinds

/-- The tokens up to the last one that rewinds. -/
def voiceEntry (ts : List Token) : List Token := ts.rdropWhile fun t => !t.rewinds

theorem voiceEntry_append_latestVoice (ts : List Token) : voiceEntry ts ++ latestVoice ts = ts :=
  List.rdropWhile_append_rtakeWhile

theorem rewinds_of_mem_latestVoice {ts : List Token} {t : Token} (ht : t ∈ latestVoice ts) :
    t.rewinds = false := by
  have h : (!t.rewinds) = true := List.mem_rtakeWhile_imp (p := fun t : Token => !t.rewinds) ht
  simpa using h

/-- The trees that the tokens of a stream have added since the last one that rewinds. -/
def Forest.latestVoice (f : Forest) (ts : List Token) : Forest :=
  f.added (voiceEntry ts) (RhythmTree.latestVoice ts)

/-- As soon as there is a measure, the latest voice follows a token that rewinds, in the latest
measure. -/
theorem voiceEntry_spec {ts : List Token} (hc : measureCount ts ≠ 0) :
    measureCount (voiceEntry ts) = measureCount ts ∧
      ∃ before start, voiceEntry ts = before ++ [start] ∧ start.rewinds = true := by
  have hv : measureCount (latestVoice ts) = 0 := by
    rw [measureCount_eq_zero]
    intro t ht
    have hr := rewinds_of_mem_latestVoice ht
    rw [Token.rewinds, Bool.or_eq_false_iff] at hr
    exact hr.1
  have hm : measureCount (voiceEntry ts) = measureCount ts := by
    rw [← congrArg measureCount (voiceEntry_append_latestVoice ts), measureCount_append, hv,
      Nat.add_zero]
  refine ⟨hm, ?_⟩
  have hn : voiceEntry ts ≠ [] := by
    intro he
    rw [he] at hm
    exact hc hm.symm
  have hl : ¬ (!((voiceEntry ts).getLast hn).rewinds) = true := List.rdropWhile_last_not _ ts hn
  exact ⟨_, _, (List.dropLast_append_getLast hn).symm, by simpa using hl⟩

/-! ### A voice in its measure -/

/-- A measure holds a tree that starts and ends inside it. -/
def Measure.Holds (m : Measure) (t : Tree) : Prop :=
  m.offset ≤ t.label.offset ∧ t.label.stop ≤ m.stop

theorem Measure.forall_holds_iff {m : Measure} {f : Forest} :
    (∀ t ∈ f, m.Holds t) ↔ Within m.offset (f.map Tree.span) m.stop := by
  rw [Within, List.forall_mem_map]
  rfl

theorem forall_head?_map_span_iff {f : Forest} {a : Duration} :
    (∀ s ∈ (f.map Tree.span).head?, s.start = a) ↔ ∀ t ∈ f.head?, t.label.offset = a := by
  rw [List.head?_map]
  cases f.head? with
  | none => simp
  | some t => simp [Tree.span]

section

variable {ts rest : List Token} {score : Score} {k : Nat} {m : Measure}

/-- The trees of the latest voice, seen from the score: they have the shape of a voice that begins
where the measure does. -/
theorem exists_voiceShape (hd : ∀ t ∈ ts, t.mode? ≠ some .decrement)
    (hb : build false (ts ++ rest) = .ok score) (hk : measureCount ts = k + 1)
    (hm : score.measures[k]? = some m) :
    (reached ts).elapsed = totalLength ((score.forest.latestVoice ts).map Tree.span) ∧
      ∃ entry mode position, VoiceShape m.offset entry mode
        ((score.forest.latestVoice ts).map Tree.span) position := by
  have hn : measureCount ts ≠ 0 := by omega
  obtain ⟨hc, before, start, he, hs⟩ := voiceEntry_spec hn
  have hv : ∀ t ∈ latestVoice ts, t.staysInVoice = true := by
    intro t ht
    refine Token.staysInVoice_of_not_rewinds (rewinds_of_mem_latestVoice ht) (hd t ?_)
    exact (List.rtakeWhile_suffix _ ts).subset ht
  obtain ⟨spans, h⟩ := inVoice_reached before hs hv
  rw [← he, voiceEntry_append_latestVoice] at h
  rw [← voiceEntry_append_latestVoice ts] at hb
  have hsp := spans_reached_append hb
  rw [voiceEntry_append_latestVoice] at hsp
  obtain rfl : spans = (score.forest.latestVoice ts).map Tree.span :=
    List.append_cancel_left (h.spans_eq.symm.trans hsp)
  rw [List.append_assoc] at hb
  obtain ⟨m', hm', ho⟩ := exists_measure_of_count hb (hc.trans hk)
  obtain rfl : m = m' := Option.some.inj (hm.symm.trans hm')
  rw [ho]
  exact ⟨h.elapsed, _, _, _, h.shape⟩

/-- A tree that is added in the mode of the measure starts where the current measure does. -/
theorem exists_tree_of_measure_mode {t : Token} (hb : build false (ts ++ t :: rest) = .ok score)
    (ht : t.startsTree = true) (hmode : (reached ts).mode = .measure) :
    ∃ tree, score.forest[treeCount ts]? = some tree ∧
      tree.label.offset = (reached ts).measureStart := by
  obtain ⟨d, hi⟩ := Token.exists_instruction?_of_startsTree ht
  have hs : (reached (ts ++ [t])).times.spans =
      (reached ts).times.spans ++ [.ofLength d (reached ts).measureStart] := by
    rw [reached_concat, after_of_instruction? hi, perform, addRoot_of_measure hmode,
      times_addRootAt]
    rfl
  obtain ⟨tree, hf, he⟩ := exists_tree_of_spans hb ht hs
  exact ⟨tree, hf, congrArg Span.start he⟩

theorem offset_of_measure_mode {t : Token} (hb : build false (ts ++ t :: rest) = .ok score)
    (ht : t.startsTree = true) (hmode : (reached ts).mode = .measure) (hk : measureCount ts = k + 1)
    (hm : score.measures[k]? = some m) :
    ∃ tree, score.forest[treeCount ts]? = some tree ∧ tree.label.offset = m.offset := by
  obtain ⟨tree, hf, he⟩ := exists_tree_of_measure_mode hb ht hmode
  obtain ⟨m', hm', ho⟩ := exists_measure_of_count hb hk
  obtain rfl : m = m' := Option.some.inj (hm.symm.trans hm')
  exact ⟨tree, hf, he.trans ho.symm⟩

/-- **A measure holds the voices that start with it and are no longer.** Take the trees of the
latest voice anywhere in a stream without decrement mode. If the measure ends there, so that the
voice is its last one, then the measure holds all of them exactly if the first one starts with the
measure. If the first one starts with the measure and they do not last longer than it, then the
measure holds them even if other voices follow. A tree that is added in the mode of the measure
starts with the measure. -/
theorem voice_within_measure (hd : ∀ t ∈ ts, t.mode? ≠ some .decrement)
    (hb : build false (ts ++ rest) = .ok score) (hk : measureCount ts = k + 1) :
    ∃ m, score.measures[k]? = some m ∧
      ((∀ t ∈ rest.head?, t.opensMeasure = true) →
        ((∀ t ∈ score.forest.latestVoice ts, m.Holds t) ↔
          ∀ t ∈ (score.forest.latestVoice ts).head?, t.label.offset = m.offset)) ∧
      ((∀ t ∈ (score.forest.latestVoice ts).head?, t.label.offset = m.offset) →
        Duration.sum ((score.forest.latestVoice ts).map (·.label.duration)) ≤ m.duration →
          ∀ t ∈ score.forest.latestVoice ts, m.Holds t) ∧
      (∀ t ∈ rest.head?, t.startsTree = true → (reached ts).mode = .measure →
        ∃ tree, score.forest[treeCount ts]? = some tree ∧ tree.label.offset = m.offset) := by
  obtain ⟨m, hm, -⟩ := exists_measure_of_count hb hk
  obtain ⟨he, entry, mode, position, shape⟩ := exists_voiceShape hd hb hk hm
  have hiff := shape.within_iff
  rw [forall_head?_map_span_iff] at hiff
  refine ⟨m, hm, ?_, ?_, ?_⟩
  · -- the time elapsed behind the last voice is the duration of the measure
    intro hr
    obtain rfl := Option.some.inj (hm.symm.trans (getElem?_measures_of_close hb hr hk))
    rw [Measure.forall_holds_iff, Measure.stop]
    simp only [he]
    exact hiff
  · intro hf hle
    rw [← totalLength_map_span] at hle
    rw [Measure.forall_holds_iff]
    exact (hiff.mpr hf).mono (Duration.add_le_add_left hle m.offset)
  · intro t ht hst hmode
    cases rest with
    | nil => cases ht
    | cons u rest =>
      obtain rfl : u = t := Option.some.inj ht
      exact offset_of_measure_mode hb hst hmode hk hm

end

open Token in
/-- A measure with one voice of two trees. -/
def oneVoice : List Token := [bar, root (.ofNat 4), switch .increment, root (.ofNat 2)]

theorem voice_within_measure_oneVoice :
    ∃ score, build false oneVoice = .ok score ∧ ∃ m, score.measures[0]? = some m ∧
      ((∀ t ∈ score.forest.latestVoice oneVoice, m.Holds t) ↔
        ∀ t ∈ (score.forest.latestVoice oneVoice).head?, t.label.offset = m.offset) := by
  have hd : ∀ t ∈ oneVoice, t.mode? ≠ some .decrement := by decide +kernel
  have hw : ∀ t ∈ oneVoice ++ [], t.isWellFormed = true := by decide +kernel
  have hb : build false (oneVoice ++ []) = .ok (reached oneVoice).toScore :=
    build_lenient_eq_ok.mpr ⟨hw, rfl⟩
  have hk : measureCount oneVoice = 0 + 1 := by decide +kernel
  obtain ⟨m, hm, h, -, -⟩ := voice_within_measure hd hb hk
  exact ⟨_, hb, m, hm, h (by simp)⟩

open Token in
/-- A measure with a voice of four units and a voice of two units, which is the last one. -/
def twoVoices : List Token := [bar, root (.ofNat 4), switch .measure, root (.ofNat 2)]

/-- A measure does not always hold the trees that are added in it. -/
theorem not_forall_measure_holds :
    ¬ ∀ (before inside after : List Token) (start : Token) (score : Score) (m : Measure),
      start.opensMeasure = true → (∀ t ∈ inside, t.opensMeasure = false) →
      (∀ t ∈ after.head?, t.opensMeasure = true) →
      (∀ t ∈ before ++ [start] ++ inside ++ after, t.mode? ≠ some .decrement) →
      build false (before ++ [start] ++ inside ++ after) = .ok score →
      score.measures[measureCount before]? = some m →
        ∀ t ∈ score.forest.added (before ++ [start]) inside, m.Holds t := by
  intro h
  have hw : ∀ t ∈ twoVoices, t.isWellFormed = true := by decide +kernel
  have hm : (reached twoVoices).toScore.measures[0]? = some ⟨1, .zero, .ofNat 2⟩ := by
    decide +kernel
  have hh := h [] twoVoices.tail [] Token.bar _ ⟨1, .zero, .ofNat 2⟩ (by decide +kernel)
    (by decide +kernel) (by decide +kernel) (by decide +kernel)
    (build_lenient_eq_ok.mpr ⟨hw, rfl⟩) hm
  have hs : (((reached twoVoices).toScore.forest.added [Token.bar] twoVoices.tail).map
      (·.label.stop)) = [.ofNat 4, .ofNat 2] := by decide +kernel
  have h4 : (.ofNat 4 : Duration) ∈ ((reached twoVoices).toScore.forest.added [Token.bar]
      twoVoices.tail).map (·.label.stop) := by
    rw [hs]
    exact List.mem_cons_self
  obtain ⟨t, ht, he⟩ := List.mem_map.mp h4
  have hle : (.ofNat 4 : Duration) ≤ Measure.stop ⟨1, .zero, .ofNat 2⟩ := he ▸ (hh t ht).2
  exact absurd hle (by decide +kernel)

end RhythmTree
