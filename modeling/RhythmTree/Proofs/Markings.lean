import RhythmTree.Proofs.Conservation
import RhythmTree.Proofs.Occurrences
import RhythmTree.Proofs.Voice

/-!
# Measures and markings

Measures lie one behind the other, and what is marked stands at the start of the measure that was
opened last. How long a measure lasts depends on the trees behind the last token that goes back to
its start.

* `switchesTo?_eq`, `mode_reached`: **the mode is the one that was set last**, in whatever form.
* `markings_after`: what a token adds to the markings.
* `Score.barStart`: where the measure starts that some first tokens have opened last.
* `measure_of_getElem?`: **a measure in terms of the tokens up to its end.**
* `timed_build`: the measures and the markings of a score.
-/

namespace RhythmTree

open BuilderState

/-! ### Modes -/

namespace Token

variable {t : Token} {k : Keyword}

/-- The mode that holds behind a token, whatever held before it. A token of a measure goes back to
the mode of the measure, and a token of a mode switches to it. -/
def switchesTo? (t : Token) : Option StackMode :=
  if t.Carries .measure ∨ t.Carries .stackModeMeasure then some .measure
  else if t.Carries .stackModeIncrement then some .increment
  else if t.Carries .stackModeDecrement then some .decrement
  else if t.IsAtomOf .stackMode then t.text?.bind StackMode.ofMark?
  else none

theorem instruction?_of_shared? {i : Instruction} (h : Reading.shared? k = some i)
    (hc : t.Carries k) : t.instruction? = some i := by
  rw [instruction?, Reading.ofToken_of_shared? h hc]

theorem instruction?_of_isAtomOf_stackMode (hw : t.isWellFormed = true)
    (h : t.IsAtomOf .stackMode) :
    ∃ m, t.text?.bind StackMode.ofMark? = some m ∧ t.instruction? = some (.setMode m) := by
  have hr : Reading.ofToken t = Reading.ofMode t := Reading.ofToken_of_atom h.1 h.2
  rw [Reading.ofMode] at hr
  rcases textPayload_cases t with ⟨i, mark, rfl, hp⟩ | ⟨-, m, hp⟩
  · rw [hp] at hr
    cases hm : StackMode.ofMark? mark with
    | some m =>
      refine ⟨m, hm, ?_⟩
      rw [instruction?, hr]
      simp only [hm]
    | none =>
      simp only [hm] at hr
      rw [isWellFormed, hr] at hw
      cases hw
  · rw [hp] at hr
    rw [isWellFormed, hr] at hw
    cases hw

theorem carries_of_mode? {m : StackMode} (h : t.mode? = some m) :
    (∃ k ∈ Keyword.switches, t.Carries k) ∨ t.IsAtomOf .stackMode := by
  have hi : t.instruction? = some (.setMode m) := by
    rw [mode?] at h
    split at h
    · next hi => rw [hi, Option.some.inj h]
    · cases h
  obtain ⟨k, hk, hc⟩ := exists_keyword_of_instruction? hi
  rcases List.mem_append.mp hk with hk | hk
  · exact .inl ⟨k, hk, hc⟩
  · obtain ⟨hk, ha⟩ := isAtomOf_of_mem hk hc
    exact .inr (List.mem_singleton.mp hk ▸ ha)

/-- **The keyword of a well-formed token tells which mode it sets.** -/
theorem switchesTo?_eq (hw : t.isWellFormed = true) :
    t.switchesTo? = if t.opensMeasure then some .measure else t.mode? := by
  have shared : ∀ {k i}, Reading.shared? k = some i → t.Carries k →
      (if t.opensMeasure then some StackMode.measure else t.mode?) =
        match i with
        | .openMeasure => some .measure
        | .setMode m => some m
        | _ => none := by
    intro k i h hc
    rw [opensMeasure, mode?, instruction?_of_shared? h hc]
    cases i <;> rfl
  by_cases hm : t.Carries .measure ∨ t.Carries .stackModeMeasure
  · rw [switchesTo?, if_pos hm]
    rcases hm with hc | hc
    · exact (shared rfl hc).symm
    · exact (shared rfl hc).symm
  by_cases hi : t.Carries .stackModeIncrement
  · rw [switchesTo?, if_neg hm, if_pos hi]
    exact (shared rfl hi).symm
  by_cases hd : t.Carries .stackModeDecrement
  · rw [switchesTo?, if_neg hm, if_neg hi, if_pos hd]
    exact (shared rfl hd).symm
  rw [switchesTo?, if_neg hm, if_neg hi, if_neg hd]
  by_cases ha : t.IsAtomOf .stackMode
  · obtain ⟨m, hm, hi⟩ := instruction?_of_isAtomOf_stackMode hw ha
    rw [if_pos ha, hm, opensMeasure, mode?, hi]
    rfl
  · -- no form of a switch is left
    have ho : ¬ t.opensMeasure = true := fun ho => hm (.inl ((opensMeasure_iff hw).mp ho))
    rw [if_neg ha, if_neg ho, eq_comm, Option.eq_none_iff_forall_ne_some]
    intro m he
    rcases carries_of_mode? he with ⟨k, hk, hc⟩ | h
    · simp only [Keyword.switches, List.mem_cons, List.not_mem_nil, or_false] at hk
      rcases hk with rfl | rfl | rfl
      · exact hm (.inr hc)
      · exact hi hc
      · exact hd hc
    · exact ha h

theorem rewinds_iff (hw : t.isWellFormed = true) :
    t.rewinds = true ↔ t.switchesTo? = some .measure := by
  rw [switchesTo?_eq hw, rewinds]
  cases t.opensMeasure <;> simp

theorem mode?_ne_decrement (hw : t.isWellFormed = true) (h : t.switchesTo? ≠ some .decrement) :
    t.mode? ≠ some .decrement := by
  intro hm
  rw [switchesTo?_eq hw, hm] at h
  cases ho : t.opensMeasure with
  | false => exact h (by rw [ho]; rfl)
  | true =>
    rw [mode?, instruction?_of_opensMeasure ho] at hm
    cases hm

end Token

/-- The mode that the tokens of a stream have set last. At first it is that of the measure. -/
def latestMode (ts : List Token) : StackMode :=
  (ts.filterMap Token.switchesTo?).getLast?.getD .measure

theorem latestMode_concat (ts : List Token) (t : Token) :
    latestMode (ts ++ [t]) = t.switchesTo?.getD (latestMode ts) := by
  rw [latestMode, getLast?_filterMap_concat, latestMode]
  cases t.switchesTo? <;> rfl

namespace BuilderState

variable {t : Token}

theorem mode_after (hw : t.isWellFormed = true) (s : BuilderState) (index : Nat) :
    (s.after index t).mode = t.switchesTo?.getD s.mode := by
  rw [Token.switchesTo?_eq hw]
  cases timedStep_after s index t with
  | bar ho _ _ e =>
    rw [e, ho]
    rfl
  | switch m ho _ hm e =>
    rw [e, ho, hm]
    cases m <;> rfl
  | root d ho _ hm e =>
    obtain ⟨offset, elapsed, position, ht⟩ := times_addRoot index d s
    rw [e, ho, hm]
    exact congrArg Times.mode ht
  | idle ho _ hm e =>
    rw [ho, hm]
    exact congrArg Times.mode e

/-- **The mode is the one that was set last.** -/
theorem mode_reached {ts : List Token} (hw : ∀ t ∈ ts, t.isWellFormed = true) :
    (reached ts).mode = latestMode ts := by
  induction ts using List.reverseRecOn with
  | nil => rfl
  | append_singleton ts t ih =>
    rw [reached_concat, mode_after (hw t (by simp)), latestMode_concat,
      ih fun u hu => hw u (by simp [hu])]

end BuilderState

/-! ### Markings -/

/-- A change of tempo that stands nowhere yet: its value and the note that has the beat. -/
def Instruction.tempo? : Instruction → Option (Int × Int)
  | .markTempo value subdivision => some (value, subdivision)
  | _ => none

/-- The text of a rehearsal marking. -/
def Instruction.label? : Instruction → Option Text
  | .markRehearsal label => some label
  | _ => none

namespace Token

variable {t : Token}

/-- The change of tempo that a token asks for. -/
def tempo? (t : Token) : Option (Int × Int) := t.instruction?.bind Instruction.tempo?

/-- The text of the rehearsal marking that a token asks for. -/
def label? (t : Token) : Option Text := t.instruction?.bind Instruction.label?

/-- What only the instructions of one keyword and one form ask for is asked for by the well-formed
tokens under this keyword in this form. -/
theorem isSome_bind_instruction? {β : Type} {ask : Instruction → Option β} {container : Bool}
    {k : Keyword} (hk : k ∈ Keyword.known container)
    (only : ∀ i c k', (ask i).isSome = true → k' ∈ i.keywords c → c = container ∧ k' = k)
    (all : ∀ i, k ∈ i.keywords container → (ask i).isSome = true) (hw : t.isWellFormed = true) :
    (t.instruction?.bind ask).isSome = true ↔ t.isContainer = container ∧ t.Carries k := by
  constructor
  · intro h
    obtain ⟨x, hx⟩ := Option.isSome_iff_exists.mp h
    obtain ⟨i, hi, hx⟩ := Option.bind_eq_some_iff.mp hx
    obtain ⟨k', hk', hc⟩ := exists_keyword_of_instruction? hi
    obtain ⟨hf, rfl⟩ := only i _ k' (by rw [hx]; rfl) hk'
    exact ⟨hf, hc⟩
  · rintro ⟨rfl, hc⟩
    obtain ⟨i, hi, hki⟩ := exists_instruction?_of_carries hw hc hk
    rw [hi]
    exact all i hki

theorem isSome_tempo? (hw : t.isWellFormed = true) :
    t.tempo?.isSome = decide (t.IsContainerOf .tempoMarking) := by
  rw [Bool.eq_iff_iff, decide_eq_true_eq]
  refine isSome_bind_instruction? (by decide) (fun i c k' h hk => ?_) (fun i hk => ?_) hw
  · cases i with
    | markTempo value subdivision => cases c <;> simp_all [Instruction.keywords]
    | _ => cases h
  · cases i with
    | markTempo value subdivision => rfl
    | _ => simp [Instruction.keywords, Keyword.switches, Keyword.markers] at hk

theorem isSome_label? (hw : t.isWellFormed = true) :
    t.label?.isSome = decide (t.IsAtomOf .rehearsalMarking) := by
  rw [Bool.eq_iff_iff, decide_eq_true_eq]
  refine isSome_bind_instruction? (by decide) (fun i c k' h hk => ?_) (fun i hk => ?_) hw
  · cases i with
    | markRehearsal label => cases c <;> simp_all [Instruction.keywords]
    | _ => cases h
  · cases i with
    | markRehearsal label => rfl
    | _ => simp [Instruction.keywords, Keyword.switches, Keyword.markers] at hk

end Token

namespace BuilderState

/-- The markings of a state. -/
def markings (s : BuilderState) : List Tempo × List Rehearsal := (s.tempi, s.rehearsals)

theorem markings_perform {i : Instruction} (ht : i.tempo? = none) (hl : i.label? = none)
    (index : Nat) (identifier : String) (s : BuilderState) :
    (s.perform index identifier i).markings = s.markings := by
  have written : ∀ {s' : BuilderState}, s'.written = s.written → s'.markings = s.markings :=
    fun h => congrArg (fun w => (w.tempi, w.rehearsals)) h
  cases i with
  | openMeasure =>
    show s.closeMeasure.markings = s.markings
    exact written (written_closeMeasure s)
  | setMode mode => cases mode <;> rfl
  | addRoot d =>
    show (s.addRoot index d).markings = s.markings
    exact placeRoot_induction (motive := fun s' => s'.markings = s.markings) rfl
      (fun _ _ h => h) (fun _ _ h => h) fun _ _ _ h => h
  | addInner beats level => exact written (written_addInner index identifier beats level s)
  | addLeaf beats level => exact written (written_addLeaf index identifier beats level s)
  | storeValue value =>
    show (s.storeValue index value).markings = _
    unfold storeValue
    split <;> rfl
  | attach events => exact written (written_attach index identifier events s)
  | markTempo value subdivision => cases ht
  | markRehearsal label => cases hl
  | _ => rfl

/-- **What a token adds to the markings** stands at the start of the current measure. -/
theorem markings_after (s : BuilderState) (index : Nat) (t : Token) :
    (s.after index t).tempi = s.tempi ++
        (t.tempo?.map fun x => (⟨x.1, x.2, s.measureStart⟩ : Tempo)).toList ∧
      (s.after index t).rehearsals = s.rehearsals ++
        (t.label?.map fun label =>
          (⟨s.rehearsals.length, label, s.measureStart⟩ : Rehearsal)).toList := by
  have same : ∀ {s' : BuilderState}, s'.markings = s.markings →
      s'.tempi = s.tempi ++ [] ∧ s'.rehearsals = s.rehearsals ++ [] := by
    intro s' h
    rw [List.append_nil, List.append_nil]
    exact ⟨congrArg Prod.fst h, congrArg Prod.snd h⟩
  rw [Token.tempo?, Token.label?]
  cases hi : t.instruction? with
  | none => rcases after_of_instruction?_eq_none hi s index with e | e <;> rw [e] <;> exact same rfl
  | some i =>
    rw [after_of_instruction? hi]
    cases i with
    | markTempo value subdivision => exact ⟨rfl, (List.append_nil _).symm⟩
    | markRehearsal label => exact ⟨(List.append_nil _).symm, rfl⟩
    | _ => exact same (markings_perform rfl rfl index t.name s)

end BuilderState

/-- Where a log has an entry for every item of a kind, one can map the items of this kind. -/
theorem filterMap_map_const {α β γ : Type} {items : List α} {item? : α → Option β}
    {kind : α → Bool} (value : α → γ) (h : ∀ a ∈ items, (item? a).isSome = kind a) :
    items.filterMap (fun a => (item? a).map fun _ => value a) = (items.filter kind).map value := by
  rw [← List.filterMap_eq_map, List.filterMap_filter]
  refine List.filterMap_congr fun a ha => ?_
  rw [← h a ha]
  cases item? a <;> rfl

namespace BuilderState

theorem indices_reached (ts : List Token) (k : Nat) (r : Rehearsal)
    (h : (reached ts).rehearsals[k]? = some r) : r.index = k := by
  induction ts using List.reverseRecOn with
  | nil => cases h
  | append_singleton ts t ih =>
    rw [reached_concat, (markings_after _ _ t).2, List.getElem?_append] at h
    split at h
    · exact ih h
    · next hk =>
      -- the new marking is the only one behind the others
      cases hl : t.label? with
      | none =>
        rw [hl] at h
        cases h
      | some label =>
        rw [hl] at h
        obtain ⟨hk', rfl⟩ := List.getElem?_eq_some_iff.mp h
        simp only [Option.map_some, Option.toList_some, List.length_singleton] at hk'
        have he : k = (reached ts).rehearsals.length := by omega
        simp [he]

end BuilderState

/-! ### Starts of measures -/

theorem Token.startsTree_iff {t : Token} (hw : t.isWellFormed = true) :
    t.startsTree = true ↔ t.IsAtomOf .rootDuration := by
  constructor
  · intro h
    obtain ⟨d, hi⟩ := exists_instruction?_of_startsTree h
    exact isAtomOf_of_addRoot hi
  · intro h
    obtain ⟨d, -, hi⟩ := exists_duration?_of_isAtomOf hw h
    rw [startsTree, duration?, hi]
    rfl

/-- The number of tokens of measures. -/
def barCount (ts : List Token) : Nat := ts.countP fun t => t.Carries .measure

/-- The number of tokens of trees. -/
def rootCount (ts : List Token) : Nat := ts.countP fun t => t.IsAtomOf .rootDuration

/-- Where the measure starts that some first tokens of a stream have opened last. If there is none,
it is the start of the piece. -/
def Score.barStart (score : Score) (before : List Token) : Duration :=
  match barCount before with
  | 0 => .zero
  | k + 1 => score.measures[k]?.elim .zero Measure.offset

section

variable {ts before rest : List Token} {score : Score} {k : Nat} {m : Measure}

theorem barCount_eq (hw : ∀ t ∈ ts, t.isWellFormed = true) : barCount ts = measureCount ts := by
  refine List.countP_congr fun t ht => ?_
  rw [Token.opensMeasure_iff (hw t ht), decide_eq_true_eq]

theorem rootCount_eq (hw : ∀ t ∈ ts, t.isWellFormed = true) : rootCount ts = treeCount ts := by
  refine List.countP_congr fun t ht => ?_
  rw [Token.startsTree_iff (hw t ht), decide_eq_true_eq]

theorem wellFormed_of_append (hb : build false (before ++ rest) = .ok score) :
    ∀ t ∈ before, t.isWellFormed = true :=
  fun t ht => (build_lenient_eq_ok.mp hb).1 t (List.mem_append_left rest ht)

/-- **The current measure starts where the score says.** -/
theorem measureStart_reached (hb : build false (before ++ rest) = .ok score) :
    (reached before).measureStart = score.barStart before := by
  rw [Score.barStart, barCount_eq (wellFormed_of_append hb)]
  rcases measures_reached before with ⟨h0, -, hs⟩ | ⟨ms, hl, -⟩
  · rw [h0, hs]
  · obtain ⟨m, hm, ho⟩ := exists_measure_of_count hb hl.symm
    rw [← hl, ← ho]
    simp only [hm, Option.elim_some]

theorem measureStart_le (s : BuilderState) (index : Nat) (t : Token) :
    s.measureStart ≤ (s.after index t).measureStart := by
  cases h : t.opensMeasure with
  | false =>
    rw [(measures_after h s index).2]
    exact Duration.le_refl _
  | true =>
    rw [after_of_opensMeasure h]
    show s.measureStart ≤ s.closeMeasure.measureStart
    unfold closeMeasure
    split
    · exact Duration.le_refl _
    · exact Duration.le_add_right _ _

theorem measureStart_reached_le (ts us : List Token) :
    (reached ts).measureStart ≤ (reached (ts ++ us)).measureStart := by
  induction us using List.reverseRecOn with
  | nil =>
    rw [List.append_nil]
    exact Duration.le_refl _
  | append_singleton us t ih =>
    rw [← List.append_assoc, reached_concat]
    exact Duration.le_trans ih (measureStart_le _ _ t)

theorem barStart_le {p q : List Token} (hb : build false ts = .ok score) (hp : p <+: q)
    (hq : q <+: ts) : score.barStart p ≤ score.barStart q := by
  obtain ⟨us, rfl⟩ := hp
  obtain ⟨rest, rfl⟩ := hq
  rw [← measureStart_reached hb, ← measureStart_reached (by rw [← List.append_assoc]; exact hb)]
  exact measureStart_reached_le p us

/-! ### Measures by their tokens -/

/-- Every measure ends with the stream, or right before the token of the next one. -/
theorem exists_split_of_lt (h : k < measureCount ts) :
    ∃ p rest, ts = p ++ rest ∧ measureCount p = k + 1 ∧
      ∀ t ∈ rest.head?, t.opensMeasure = true := by
  induction ts using List.reverseRecOn with
  | nil => cases h
  | append_singleton ts t ih =>
    rw [measureCount_concat] at h
    by_cases hk : k < measureCount ts
    · obtain ⟨p, rest, rfl, hp, hr⟩ := ih hk
      cases rest with
      | cons u rest => exact ⟨p, u :: rest ++ [t], by simp, hp, hr⟩
      | nil =>
        -- the token is the next one of a measure, or it belongs to the last measure
        cases ho : t.opensMeasure with
        | true => exact ⟨p, [t], by simp, hp, by simpa using ho⟩
        | false =>
          refine ⟨p ++ [t], [], by simp, ?_, by simp⟩
          rw [measureCount_concat, ho, hp]
          rfl
    · split at h
      · next ho =>
        refine ⟨ts ++ [t], [], by simp, ?_, by simp⟩
        rw [measureCount_concat, if_pos ho]
        omega
      · omega

/-- **A measure in terms of the tokens up to its end.** -/
theorem measure_of_getElem? (hb : build false ts = .ok score) (hm : score.measures[k]? = some m) :
    ∃ p rest, ts = p ++ rest ∧ measureCount p = k + 1 ∧
      (∀ t ∈ rest.head?, t.opensMeasure = true) ∧
      m = ⟨k + 1, (reached p).measureStart, (reached p).elapsed⟩ := by
  have hk : k < measureCount ts := by
    rw [← length_measures_build hb]
    exact (List.getElem?_eq_some_iff.mp hm).1
  obtain ⟨p, rest, rfl, hp, hr⟩ := exists_split_of_lt hk
  have hm' := getElem?_measures_of_close hb hr hp
  exact ⟨p, rest, rfl, hp, hr, Option.some.inj (hm.symm.trans hm')⟩

end

/-! ### Scores -/

/-- What a score says about the measures and the markings of a stream. Measures are counted from one
and lie one behind the other from the start of the piece. Markings, and trees that are added in the
mode of the measure, stand at the start of the measure that was opened last. Without decrement mode,
a measure lasts as long as the trees behind the last of its tokens that goes back to its start. -/
structure Score.Timed (score : Score) (ts : List Token) : Prop where
  count : score.measures.length = barCount ts
  numbers : ∀ (k : Nat) (m : Measure), score.measures[k]? = some m → m.number = k + 1
  first : ∀ m ∈ score.measures.head?, m.offset = .zero
  next : ∀ (k : Nat) (a b : Measure), score.measures[k]? = some a →
    score.measures[k + 1]? = some b → b.offset = a.stop
  tempi : score.tempi.map Tempo.offset =
    ((occurrences ts).filter fun o => o.token.IsContainerOf .tempoMarking).map fun o =>
      score.barStart o.before
  rehearsals : score.rehearsals.map Rehearsal.offset =
    ((occurrences ts).filter fun o => o.token.IsAtomOf .rehearsalMarking).map fun o =>
      score.barStart o.before
  indices : ∀ (k : Nat) (r : Rehearsal), score.rehearsals[k]? = some r → r.index = k
  roots : ∀ before t after, ts = before ++ t :: after → t.IsAtomOf .rootDuration →
    latestMode before = .measure →
      ∃ tree, score.forest[rootCount before]? = some tree ∧
        tree.label.offset = score.barStart before
  rising : ∀ p q, p <+: q → q <+: ts → score.barStart p ≤ score.barStart q
  tempi_rise : (score.tempi.map Tempo.offset).Pairwise (· ≤ ·)
  rehearsals_rise : (score.rehearsals.map Rehearsal.offset).Pairwise (· ≤ ·)
  durations : (∀ t ∈ ts, t.switchesTo? ≠ some .decrement) →
    ∀ (k : Nat) (m : Measure), score.measures[k]? = some m →
      ∃ before start voice rest, ts = before ++ [start] ++ voice ++ rest ∧
        barCount (before ++ [start]) = k + 1 ∧ start.switchesTo? = some .measure ∧
        (∀ t ∈ voice, t.switchesTo? ≠ some .measure) ∧ (∀ t ∈ rest.head?, t.Carries .measure) ∧
        m.duration = Duration.sum (((score.forest.drop (rootCount (before ++ [start]))).take
          (rootCount voice)).map fun t => t.label.duration)

section

variable {ts : List Token} {score : Score} {k : Nat} {m : Measure}

theorem markings_toScore (s : BuilderState) :
    s.toScore.tempi = s.tempi ∧ s.toScore.rehearsals = s.rehearsals :=
  ⟨congrArg Written.tempi (written_closeMeasure s),
    congrArg Written.rehearsals (written_closeMeasure s)⟩

theorem barStart_of_mem_occurrences (hb : build false ts = .ok score) {o : Occurrence}
    (ho : o ∈ occurrences ts) : (reached o.before).measureStart = score.barStart o.before := by
  obtain ⟨rest, rfl⟩ := Occurrence.before_isPrefix ho
  exact measureStart_reached hb

/-- Tokens of a kind that add something at the start of the current measure: it stands where the
score says. -/
theorem offsets_build (hb : build false ts = .ok score) {α β : Type} {view : BuilderState → List α}
    {ask : Token → Option β} {make : BuilderState → β → α} {offset : α → Duration}
    {kind : Token → Prop} [DecidablePred kind] (start : view {} = [])
    (step : ∀ s index t, view (s.after index t) = view s ++ ((ask t).map (make s)).toList)
    (made : ∀ s x, offset (make s x) = s.measureStart)
    (asks : ∀ {t}, t.isWellFormed = true → (ask t).isSome = decide (kind t)) :
    (view (reached ts)).map offset =
      ((occurrences ts).filter fun o => kind o.token).map fun o => score.barStart o.before := by
  have hw := (build_lenient_eq_ok.mp hb).1
  have hlog : view (reached ts) = (occurrences ts).filterMap fun o =>
      (ask o.token).map (make (reached o.before)) := by
    rw [List.filterMap_eq_flatMap_toList]
    exact log_reached start fun before t _ => step _ _ t
  rw [hlog, List.map_filterMap]
  simp only [Option.map_map, Function.comp_def, made]
  rw [filterMap_map_const (fun o : Occurrence => (reached o.before).measureStart)
    fun o ho => asks (hw o.token (Occurrence.token_mem ho))]
  refine List.map_congr_left fun o ho => ?_
  exact barStart_of_mem_occurrences hb (List.mem_of_mem_filter ho)

theorem tempi_build (hb : build false ts = .ok score) : score.tempi.map Tempo.offset =
    ((occurrences ts).filter fun o => o.token.IsContainerOf .tempoMarking).map fun o =>
      score.barStart o.before := by
  have hscore : score.tempi = (reached ts).tempi := by
    rw [← (build_lenient_eq_ok.mp hb).2, (markings_toScore _).1]
  rw [hscore]
  exact offsets_build hb rfl (fun s index t => (markings_after s index t).1) (fun _ _ => rfl)
    Token.isSome_tempo?

theorem rehearsals_build (hb : build false ts = .ok score) :
    score.rehearsals.map Rehearsal.offset =
      ((occurrences ts).filter fun o => o.token.IsAtomOf .rehearsalMarking).map fun o =>
        score.barStart o.before := by
  have hscore : score.rehearsals = (reached ts).rehearsals := by
    rw [← (build_lenient_eq_ok.mp hb).2, (markings_toScore _).2]
  rw [hscore]
  exact offsets_build hb rfl (fun s index t => (markings_after s index t).2) (fun _ _ => rfl)
    Token.isSome_label?

theorem pairwise_barStart (hb : build false ts = .ok score) (kind : Occurrence → Bool) :
    (((occurrences ts).filter kind).map fun o => score.barStart o.before).Pairwise (· ≤ ·) := by
  rw [List.pairwise_map]
  refine (((occurrences_pairwise ts).filter kind).imp_of_mem fun {o o'} _ ho' hp => ?_)
  exact barStart_le hb hp (Occurrence.before_isPrefix (List.mem_of_mem_filter ho'))

/-- The last tokens of a measure that decide how long it lasts. -/
theorem duration_build (hb : build false ts = .ok score)
    (hd : ∀ t ∈ ts, t.switchesTo? ≠ some .decrement) (hm : score.measures[k]? = some m) :
    ∃ before start voice rest, ts = before ++ [start] ++ voice ++ rest ∧
      barCount (before ++ [start]) = k + 1 ∧ start.switchesTo? = some .measure ∧
      (∀ t ∈ voice, t.switchesTo? ≠ some .measure) ∧ (∀ t ∈ rest.head?, t.Carries .measure) ∧
      m.duration = Duration.sum (((score.forest.drop (rootCount (before ++ [start]))).take
        (rootCount voice)).map fun t => t.label.duration) := by
  have hw := (build_lenient_eq_ok.mp hb).1
  obtain ⟨p, rest, rfl, hp, hr, rfl⟩ := measure_of_getElem? hb hm
  have hmode : ∀ t ∈ p, t.mode? ≠ some .decrement := by
    intro t ht
    have ht' : t ∈ p ++ rest := List.mem_append_left rest ht
    exact Token.mode?_ne_decrement (hw t ht') (hd t ht')
  obtain ⟨he, -⟩ := exists_voiceShape hmode hb hp hm
  obtain ⟨hc, before, start, hv, hs⟩ := @voiceEntry_spec p (by omega)
  have hsplit : before ++ [start] ++ latestVoice p = p := by
    rw [← hv, voiceEntry_append_latestVoice]
  have hwp : ∀ t ∈ before ++ [start] ++ latestVoice p, t.isWellFormed = true := by
    intro t ht
    rw [hsplit] at ht
    exact hw t (List.mem_append_left rest ht)
  have hwe : ∀ t ∈ before ++ [start], t.isWellFormed = true :=
    fun t ht => hwp t (List.mem_append_left _ ht)
  have hwv : ∀ t ∈ latestVoice p, t.isWellFormed = true :=
    fun t ht => hwp t (List.mem_append_right _ ht)
  refine ⟨before, start, latestVoice p, rest, by rw [hsplit], ?_, ?_, fun t ht => ?_,
    fun t ht => ?_, ?_⟩
  · rw [barCount_eq hwe, ← hv, hc, hp]
  · exact (Token.rewinds_iff (hwe start (by simp))).mp hs
  · rw [ne_eq, ← Token.rewinds_iff (hwv t ht), rewinds_of_mem_latestVoice ht]
    exact Bool.false_ne_true
  · have ht' : t ∈ p ++ rest := List.mem_append_right p (List.mem_of_mem_head? ht)
    exact (Token.opensMeasure_iff (hw t ht')).mp (hr t ht)
  · rw [rootCount_eq hwe, rootCount_eq hwv, ← hv]
    exact he.trans (totalLength_map_span _)

/-- **The measures and the markings of a score, told by the tokens.** -/
theorem timed_build (hb : build false ts = .ok score) : score.Timed ts := by
  have hw := (build_lenient_eq_ok.mp hb).1
  have htiles := (tiles_measures hb).start_of_getElem?
  have htempi := tempi_build hb
  have hrehearsals := rehearsals_build hb
  refine ⟨?_, fun k m hm => ?_, fun m hm => ?_, fun k a b ha hb' => ?_, htempi, hrehearsals,
    fun k r hr => ?_, ?_, fun p q hp hq => barStart_le hb hp hq, ?_, ?_,
    fun hd k m hm => duration_build hb hd hm⟩
  · rw [length_measures_build hb, barCount_eq hw]
  · obtain ⟨p, rest, -, -, -, rfl⟩ := measure_of_getElem? hb hm
    rfl
  · refine htiles.1 m.span ?_
    rw [List.head?_map, Option.mem_def.mp hm]
    rfl
  · have h := htiles.2 k a.span b.span (by rw [List.getElem?_map, ha]; rfl)
      (by rw [List.getElem?_map, hb']; rfl)
    exact h
  · rw [← (build_lenient_eq_ok.mp hb).2, (markings_toScore _).2] at hr
    exact indices_reached ts k r hr
  · rintro before t after rfl ht hmode
    have hwb : ∀ u ∈ before, u.isWellFormed = true := wellFormed_of_append hb
    have hs : t.startsTree = true := (Token.startsTree_iff (hw t (by simp))).mpr ht
    rw [← mode_reached hwb] at hmode
    rw [rootCount_eq hwb, ← measureStart_reached hb]
    exact exists_tree_of_measure_mode hb hs hmode
  · rw [htempi]
    exact pairwise_barStart hb _
  · rw [hrehearsals]
    exact pairwise_barStart hb _

end

open Token in
/-- A measure with two voices, the second of which begins with a switch in the form of a container,
and a measure with markings. -/
def markedStream : List Token :=
  [bar, root (.ofNat 4), .container Keyword.stackModeMeasure.spelling none [], root (.ofNat 2),
    switch .increment, root (.ofNat 1), bar,
    .container Keyword.tempoMarking.spelling none [.int Keyword.value.spelling 120 none],
    .text Keyword.rehearsalMarking.spelling "A", root (.ofNat 4)]

theorem timed_build_markedStream :
    ∃ score, build false markedStream = .ok score ∧ score.Timed markedStream ∧
      (∀ t ∈ markedStream, t.switchesTo? ≠ some .decrement) ∧
      score.measures.map Measure.duration = [.ofNat 3, .ofNat 4] ∧
      score.tempi.map Tempo.offset = [.ofNat 3] ∧
      score.rehearsals.map Rehearsal.offset = [.ofNat 3] := by
  have hb : build false markedStream = .ok (reached markedStream).toScore :=
    build_lenient_eq_ok.mpr ⟨by decide +kernel, rfl⟩
  exact ⟨_, hb, timed_build hb, by decide +kernel, by decide +kernel, by decide +kernel,
    by decide +kernel⟩

end RhythmTree
