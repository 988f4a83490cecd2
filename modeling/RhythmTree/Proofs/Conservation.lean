import RhythmTree.Proofs.Decoration
import RhythmTree.Proofs.Prefixes
import RhythmTree.Proofs.Totals

/-!
# Conservation

What a stream asks for is in the score or in the report. Every tree token gives a tree, every token
of a node below a root gives a node or is reported, every event gives a component or is reported,
and tokens that mean nothing are reported one by one.

* `placed_after`, `carried_after`: **what one token adds, to the nodes and to the components.**
* `placed_reached`, `carried_reached`, `reported_unrecognized_reached`: the counts along a run.
* `accounts_build`: **the score and its report account for every token.**
-/

namespace RhythmTree

open BuilderState

/-! ### What a token adds -/

theorem Instruction.eq_attach_of_mem_codes {i : Instruction} (h : "MISSING_CONTEXT" ∈ i.codes) :
    ∃ events, i = .attach events := by
  cases i with
  | attach events => exact ⟨events, rfl⟩
  | _ => simp [codes] at h

theorem Instruction.eq_extension_of_mem_codes {i : Instruction}
    (h : "NO_OPEN_CONTAINER" ∈ i.codes) : ∃ e : Extension, i = e.instruction := by
  cases i with
  | addInner beats level => exact ⟨⟨true, beats, level⟩, rfl⟩
  | addLeaf beats level => exact ⟨⟨false, beats, level⟩, rfl⟩
  | _ => simp [codes] at h

theorem Extension.isAboutNodes_instruction (e : Extension) : e.instruction.isAboutNodes = true := by
  rw [instruction]
  split <;> rfl

theorem Token.isNode_eq_false {t : Token}
    (h : ∀ i, t.instruction? = some i → i.isAboutNodes = false) : t.isNode = false := by
  rw [isNode]
  cases hi : t.instruction? with
  | none => rfl
  | some i =>
    cases i with
    | addRoot d => cases h _ hi
    | addInner beats level | addLeaf beats level => cases h _ hi
    | _ => rfl

theorem Token.events_eq_nil {t : Token} (h : ∀ events, t.instruction? ≠ some (.attach events)) :
    t.events = [] := by
  rw [events]
  cases hi : t.instruction? with
  | none => rfl
  | some i =>
    cases i with
    | attach events => exact absurd hi (h events)
    | _ => rfl

theorem Outline.durations_addNode (opens : Bool) (beats : Int) (depth : Nat) (o : Outline) :
    (o.addNode opens beats depth).durations = o.durations := by
  have hc : (o.closeLevels depth).durations = o.durations := by
    unfold closeLevels
    split <;> rfl
  rw [addNode, ← hc]
  unfold attachChild
  split <;> rfl

theorem Outline.durations_after (o : Outline) (t : Token) :
    (o.after t).durations = o.durations ++ t.duration?.toList := by
  rw [Token.duration?, after]
  cases t.instruction? with
  | none => exact (List.append_nil _).symm
  | some i =>
    cases i with
    | addRoot d => rfl
    | addInner beats level | addLeaf beats level =>
      exact (durations_addNode _ _ _ o).trans (List.append_nil _).symm
    | _ => exact (List.append_nil _).symm

namespace BuilderState

variable {s : BuilderState} {t : Token} {made : Place → Prop}

/-- An instruction without such findings reports none. -/
theorem reported_after {code : String} (hu : code ≠ "UNRECOGNIZED_IDENTIFIER")
    (h : ∀ i, t.instruction? = some i → code ∉ i.codes) (s : BuilderState) (index : Nat) :
    (s.after index t).reported code = s.reported code := by
  cases hi : t.instruction? with
  | none =>
    rcases after_of_instruction?_eq_none hi s index with e | e
    · rw [e]
    · rw [e, reported_record, Finding.code, if_neg hu.symm, Nat.add_zero]
  | some i =>
    rw [after_of_instruction? hi]
    refine (records_perform index t.name i s).countP_eq fun f hf => decide_eq_false fun he => ?_
    exact h i hi (he ▸ hf)

/-- The nodes there are, and those that got lost. -/
def placed (s : BuilderState) : Nat := s.forest.size + s.reported "NO_OPEN_CONTAINER"

/-- The components there are, and the events that got lost. -/
def carried (s : BuilderState) : Nat := s.forest.components.length + s.reported "MISSING_CONTEXT"

/-- **An event becomes one component or one finding**, and touches nothing else that is counted. -/
theorem carried_attachEvent (h : Decorated s made) (index : Nat) (identifier : String)
    (event : Event) : (s.attachEvent index identifier event).carried = s.carried + 1 ∧
      (s.attachEvent index identifier event).placed = s.placed := by
  rcases attachEvent_cases index identifier event s with ⟨c, place, hl, e⟩ | e
  · -- the current leaf may be in an earlier tree, but it stands
    obtain ⟨u, hu⟩ := Forest.nodeAt?_ne_none_iff.mp (h.stands place (h.current place hl))
    rw [e, carried, placed, Forest.length_components_addComponent hu, Forest.size_addComponent hu]
    exact ⟨Nat.add_right_comm _ _ _, rfl⟩
  · rw [e, carried, placed, reported_record, reported_record]
    exact ⟨rfl, rfl⟩

theorem carried_attach (h : Decorated s made) (index : Nat) (identifier : String)
    (events : List Event) :
    (s.attach index identifier events).carried = s.carried + events.length ∧
      (s.attach index identifier events).placed = s.placed := by
  unfold attach
  induction events generalizing s with
  | nil => exact ⟨rfl, rfl⟩
  | cons event rest ih =>
    obtain ⟨hc, hp⟩ := carried_attachEvent h index identifier event
    obtain ⟨hc', hp'⟩ := ih (h.attachEvent index identifier event)
    rw [List.foldl_cons, hc', hp', hc, hp, List.length_cons]
    exact ⟨by omega, rfl⟩

theorem reported_container_after (h : ∀ e : Extension, t.instruction? ≠ some e.instruction)
    (s : BuilderState) (index : Nat) :
    (s.after index t).reported "NO_OPEN_CONTAINER" = s.reported "NO_OPEN_CONTAINER" := by
  refine reported_after (by decide) (fun i hi hm => ?_) s index
  obtain ⟨e, rfl⟩ := Instruction.eq_extension_of_mem_codes hm
  exact h e hi

theorem reported_context_after (h : ∀ events, t.instruction? ≠ some (.attach events))
    (s : BuilderState) (index : Nat) :
    (s.after index t).reported "MISSING_CONTEXT" = s.reported "MISSING_CONTEXT" := by
  refine reported_after (by decide) (fun i hi hm => ?_) s index
  obtain ⟨events, rfl⟩ := Instruction.eq_attach_of_mem_codes hm
  exact h events hi

/-- **A node token adds one node, there or lost**, and other tokens add none. -/
theorem placed_after (h : Decorated s made) (ho : s.OpenStands) (index : Nat) (t : Token) :
    (s.after index t).placed = s.placed + if t.isNode then 1 else 0 := by
  cases nodeStep_after s index t with
  | root d a hi hf _ _ =>
    have hr := reported_container_after (t := t) (fun e he => ?_) s index
    · rw [placed, placed, hf, hr, Forest.size_concat, Token.isNode, hi]
      exact Nat.add_right_comm _ _ _
    · rw [hi, Extension.instruction] at he
      split at he <;> cases he
  | child e path hi hp hf _ _ hr =>
    obtain ⟨u, hu⟩ := Forest.nodeAt?_ne_none_iff.mp (ho path hp)
    rw [placed, placed, hf, hr, Forest.size_addChild hu, Token.isNode, hi, Extension.instruction]
    cases e.opens <;> exact Nat.add_right_comm _ _ _
  | drop e hi hf _ _ hr =>
    rw [placed, placed, hf, hr, Token.isNode, hi, Extension.instruction]
    cases e.opens <;> rfl
  | play events hi e =>
    rw [e, (carried_attach h index t.name events).2, Token.isNode, hi]
    rfl
  | idle hi hf _ _ =>
    have hr := reported_container_after (t := t) (fun e he => ?_) s index
    · rw [placed, placed, hf, hr, Token.isNode_eq_false hi]
      rfl
    · exact Bool.false_ne_true ((hi _ he).symm.trans e.isAboutNodes_instruction)

/-- **A token adds as many components as it asks for events, there or lost.** -/
theorem carried_after (h : Decorated s made) (ho : s.OpenStands) (index : Nat) (t : Token) :
    (s.after index t).carried = s.carried + t.events.length := by
  by_cases ha : ∃ events, t.instruction? = some (.attach events)
  · obtain ⟨events, hi⟩ := ha
    rw [after_of_instruction? hi, Token.events, hi]
    exact (carried_attach h index t.name events).1
  · have hne : ∀ events, t.instruction? ≠ some (.attach events) := not_exists.mp ha
    rw [carried, reported_context_after hne, Token.events_eq_nil hne, List.length_nil, Nat.add_zero,
      carried]
    refine congrArg (· + s.reported "MISSING_CONTEXT") ?_
    cases nodeStep_after s index t with
    | root d a _ hf _ _ => rw [hf, Forest.length_components_concat]
    | child e path _ hp hf _ _ _ =>
      obtain ⟨u, hu⟩ := Forest.nodeAt?_ne_none_iff.mp (ho path hp)
      rw [hf, Forest.length_components_addChild hu]
    | drop e _ hf _ _ _ => rw [hf]
    | play events hi _ => exact absurd hi (hne events)
    | idle _ hf _ _ => rw [hf]

/-- A well-formed token that is not handled is recorded, and no other token is recorded like it. -/
theorem reported_unrecognized_after {t : Token} (hw : t.isWellFormed = true) (s : BuilderState)
    (index : Nat) : (s.after index t).reported "UNRECOGNIZED_IDENTIFIER" =
      s.reported "UNRECOGNIZED_IDENTIFIER" + if t.IsHandled then 0 else 1 := by
  cases hr : Reading.ofToken t with
  | unrecognized =>
    rw [after, hr, if_neg (Reading.ofToken_eq_unrecognized_iff.mp hr)]
    exact reported_record s _ _
  | malformed before m =>
    rw [Token.isWellFormed, hr] at hw
    cases hw
  | instruct i =>
    have hh : t.IsHandled := by
      by_contra hn
      rw [Reading.ofToken_eq_unrecognized_iff.mpr hn] at hr
      cases hr
    rw [after, hr, if_pos hh, Nat.add_zero]
    refine (records_perform index t.name i s).countP_eq fun f hf => decide_eq_false fun he => ?_
    rw [he] at hf
    cases i <;> simp [Instruction.codes] at hf

/-! ### Counts along a run -/

theorem placed_reached (ts : List Token) : (reached ts).placed = ts.countP Token.isNode := by
  induction ts using List.reverseRecOn with
  | nil => rfl
  | append_singleton ts t ih =>
    rw [reached_concat, placed_after (decorated_reached ts) (open_stands ts), ih,
      List.countP_append, List.countP_singleton]

theorem carried_reached (ts : List Token) :
    (reached ts).carried = (ts.map fun t => t.events.length).sum := by
  induction ts using List.reverseRecOn with
  | nil => rfl
  | append_singleton ts t ih =>
    rw [reached_concat, carried_after (decorated_reached ts) (open_stands ts), ih, List.map_append,
      List.sum_append]
    rfl

theorem reported_unrecognized_reached {ts : List Token} (hw : ∀ t ∈ ts, t.isWellFormed = true) :
    (reached ts).reported "UNRECOGNIZED_IDENTIFIER" = ts.countP fun t => ¬ t.IsHandled := by
  induction ts using List.reverseRecOn with
  | nil => rfl
  | append_singleton ts t ih =>
    rw [reached_concat, reported_unrecognized_after (hw t (by simp)),
      ih fun u hu => hw u (List.mem_append_left _ hu), List.countP_append, List.countP_singleton]
    by_cases hh : t.IsHandled <;> simp [hh]

theorem durations_reached (ts : List Token) :
    (reached ts).outline.durations = ts.filterMap Token.duration? := by
  induction ts using List.reverseRecOn with
  | nil => rfl
  | append_singleton ts t ih =>
    rw [reached_concat, outline_after, Outline.durations_after, ih, List.filterMap_append]
    cases hd : t.duration? <;> simp [hd]

end BuilderState

/-! ### Tokens by form -/

namespace Token

variable {t : Token} {k : Keyword}

/-- The duration that a token carries. -/
def durationPayload? : Token → Option Duration
  | .duration _ value => some value
  | _ => none

theorem exists_instruction?_of_isAtomOf (hw : t.isWellFormed = true) (h : t.IsAtomOf k)
    (hk : k ∈ Keyword.known false) : ∃ i, t.instruction? = some i ∧ k ∈ i.keywords false := by
  obtain ⟨hf, hc⟩ := h
  rw [← hf] at hk ⊢
  exact exists_instruction?_of_carries hw hc hk

theorem opensMeasure_iff (hw : t.isWellFormed = true) :
    t.opensMeasure = true ↔ t.Carries .measure := by
  constructor
  · intro h
    obtain ⟨k, hk, hc⟩ := exists_keyword_of_instruction? (instruction?_of_opensMeasure h)
    rwa [List.mem_singleton.mp hk] at hc
  · intro hc
    obtain ⟨i, hi, hk⟩ := exists_instruction?_of_carries hw hc (by simp [Keyword.known])
    cases i with
    | openMeasure => rw [opensMeasure, hi]
    | _ =>
      cases t.isContainer <;>
        simp [Instruction.keywords, Keyword.switches, Keyword.markers] at hk

/-- A well-formed token of a tree adds a tree of the duration that it carries. -/
theorem exists_duration?_of_isAtomOf (hw : t.isWellFormed = true) (h : t.IsAtomOf .rootDuration) :
    ∃ d, t.durationPayload? = some d ∧ t.instruction? = some (.addRoot d) := by
  have hr : Reading.ofToken t = Reading.ofAtom .rootDuration t := Reading.ofToken_of_atom h.1 h.2
  cases t with
  | duration identifier value => exact ⟨value, rfl, by rw [instruction?, hr]; rfl⟩
  | _ =>
    rw [isWellFormed, hr] at hw
    cases hw

/-- A well-formed token of a node below a root asks for such a node. -/
theorem exists_extension_of_isAtomOf (hw : t.isWellFormed = true)
    (h : t.IsAtomOf .innerNode ∨ t.IsAtomOf .leafNode) :
    ∃ e : Extension, t.instruction? = some e.instruction := by
  rcases h with h | h <;>
  · obtain ⟨i, hi, hk⟩ := exists_instruction?_of_isAtomOf hw h (by decide)
    cases i with
    | addInner beats level => exact ⟨⟨true, beats, level⟩, hi⟩
    | addLeaf beats level => exact ⟨⟨false, beats, level⟩, hi⟩
    | _ => simp [Instruction.keywords, Keyword.switches, Keyword.markers] at hk

theorem duration?_eq_none (h : ¬ t.IsAtomOf .rootDuration) : t.duration? = none := by
  rw [duration?]
  cases hi : t.instruction? with
  | none => rfl
  | some i =>
    cases i with
    | addRoot d => exact absurd (isAtomOf_of_addRoot hi) h
    | _ => rfl

/-- Tokens of nodes are atomic, under three keywords. -/
theorem isNode_iff (hw : t.isWellFormed = true) : t.isNode = true ↔
    t.IsAtomOf .rootDuration ∨ t.IsAtomOf .innerNode ∨ t.IsAtomOf .leafNode := by
  rw [isNode]
  constructor
  · intro h
    split at h
    · next d hi => exact .inl (isAtomOf_of_addRoot hi)
    · next beats level hi =>
      exact .inr (.inl (isAtomOf_of_extension (e := ⟨true, beats, level⟩) hi))
    · next beats level hi =>
      exact .inr (.inr (isAtomOf_of_extension (e := ⟨false, beats, level⟩) hi))
    · cases h
  · rintro (h | h)
    · obtain ⟨d, -, hi⟩ := exists_duration?_of_isAtomOf hw h
      rw [hi]
    · obtain ⟨e, hi⟩ := exists_extension_of_isAtomOf hw h
      rw [hi, Extension.instruction]
      cases e.opens <;> rfl

end Token

section

variable {ts : List Token}

theorem map_some_filterMap_duration? (hw : ∀ t ∈ ts, t.isWellFormed = true) :
    (ts.filterMap Token.duration?).map some =
      (ts.filter fun t => t.IsAtomOf .rootDuration).map Token.durationPayload? := by
  induction ts with
  | nil => rfl
  | cons t rest ih =>
    have hr := ih fun u hu => hw u (List.mem_cons_of_mem _ hu)
    by_cases h : t.IsAtomOf .rootDuration
    · obtain ⟨d, hp, hi⟩ := Token.exists_duration?_of_isAtomOf (hw t List.mem_cons_self) h
      have hd : t.duration? = some d := by rw [Token.duration?, hi]
      rw [List.filterMap_cons_some hd, List.filter_cons, if_pos (decide_eq_true h), List.map_cons,
        List.map_cons, hr, hp]
    · rw [List.filterMap_cons_none (Token.duration?_eq_none h), List.filter_cons,
        if_neg (ne_true_of_eq_false (decide_eq_false h)), hr]

/-- Every token of a node is a token of a tree or a token of a node below a root, and not both. -/
theorem countP_isNode (hw : ∀ t ∈ ts, t.isWellFormed = true) :
    ts.countP Token.isNode = (ts.countP fun t => t.IsAtomOf .rootDuration) +
      ts.countP fun t => t.IsAtomOf .innerNode ∨ t.IsAtomOf .leafNode := by
  induction ts with
  | nil => rfl
  | cons t rest ih =>
    have hr := ih fun u hu => hw u (List.mem_cons_of_mem _ hu)
    have hn := Token.isNode_iff (hw t List.mem_cons_self)
    have hx : t.IsAtomOf .rootDuration → ¬ (t.IsAtomOf .innerNode ∨ t.IsAtomOf .leafNode) := by
      rintro h (h' | h') <;> exact absurd (h.unique h') (by decide)
    simp only [List.countP_cons, hr, hn, decide_eq_true_eq]
    by_cases h : t.IsAtomOf .rootDuration
    · simp only [h, hx h, true_or, if_true, if_false]
      omega
    · simp only [h, false_or, if_false]
      omega

end

/-! ### Accounts -/

/-- How a score and its report account for the tokens of a stream. -/
structure Score.Accounts (score : Score) (ts : List Token) : Prop where
  roots : score.forest.map (fun t => some t.label.duration) =
    (ts.filter fun t => t.IsAtomOf .rootDuration).map Token.durationPayload?
  measures : score.measures.length = ts.countP fun t => t.Carries .measure
  nodes : score.forest.descendants.length + (score.report.withCode "NO_OPEN_CONTAINER").length =
    ts.countP fun t => t.IsAtomOf .innerNode ∨ t.IsAtomOf .leafNode
  events : score.forest.components.length + (score.report.withCode "MISSING_CONTEXT").length =
    (ts.map Token.eventCount).sum
  unrecognized : (score.report.withCode "UNRECOGNIZED_IDENTIFIER").length =
    ts.countP fun t => ¬ t.IsHandled
  decorated : ∀ p u, score.forest.subtreeAt p = some u → u.label.components ≠ [] →
    u.children = [] ∧ MadeBy .leafNode ts p

section

variable {ts : List Token} {score : Score}

theorem length_withCode_build (hb : build false ts = .ok score) {code : String}
    (h : code ≠ "BEAT_WEIGHT") :
    (score.report.withCode code).length = (reached ts).reported code := by
  rw [withCode_build hb h, List.length_map, reported, List.countP_eq_length_filter]

theorem length_measures_build (hb : build false ts = .ok score) :
    score.measures.length = measureCount ts := by
  obtain ⟨-, rfl⟩ := build_lenient_eq_ok.mp hb
  show (reached ts).closeMeasure.measures.length = _
  rcases measures_reached ts with ⟨h0, hn, -⟩ | ⟨ms, hl, hms⟩
  · rw [closeMeasure_of_nil hn, hn, h0]
    rfl
  · rw [closeMeasure_of_concat hms, ← hl, List.length_append, List.length_singleton]

/-- What stands at a place of a normalized forest has stood there before, with its components. -/
theorem exists_subtreeAt_of_normalize {f : Forest} {p : Place} {u : Tree}
    (h : Forest.subtreeAt (f.map Tree.normalize) p = some u) :
    ∃ v, f.subtreeAt p = some v ∧ v.map Node.components = u.map Node.components := by
  obtain ⟨t', ht', hu⟩ := Option.bind_eq_some_iff.mp h
  rw [List.getElem?_map] at ht'
  obtain ⟨t, ht, rfl⟩ := Option.map_eq_some_iff.mp ht'
  have hm := Rose.subtreeAt_map Node.components (Tree.normalize t) p.path
  rw [Tree.map_normalize (fun _ _ => rfl) (fun _ _ => rfl), Rose.subtreeAt_map, hu] at hm
  obtain ⟨v, hv, he⟩ := Option.map_eq_some_iff.mp hm
  exact ⟨v, by rw [Forest.subtreeAt, ht]; exact hv, he⟩

/-- **The score and its report account for every token.** -/
theorem accounts_build (hb : build false ts = .ok score) : score.Accounts ts := by
  obtain ⟨hw, hs⟩ := build_lenient_eq_ok.mp hb
  have hf : score.forest = (reached ts).forest.map Tree.normalize := by
    rw [← hs, forest_toScore]
  have hroots : score.forest.map (fun t => some t.label.duration) =
      (ts.filter fun t => t.IsAtomOf .rootDuration).map Token.durationPayload? := by
    have hd := congrArg (List.map some) (map_duration_build hb)
    rw [durations_reached, map_some_filterMap_duration? hw, List.map_map] at hd
    exact hd
  refine ⟨hroots, ?_, ?_, ?_, ?_, fun p u hu hc => ?_⟩
  · rw [length_measures_build hb, measureCount]
    exact List.countP_congr fun t ht => by
      rw [Token.opensMeasure_iff (hw t ht), decide_eq_true_eq]
  · -- the nodes are the roots and those below them, and so are the tokens
    have htrees := congrArg List.length hroots
    have hsize := (reached ts).forest.size_eq_add
    have hplaced := placed_reached ts
    rw [List.length_map, List.length_map, ← List.countP_eq_length_filter, hf, List.length_map]
      at htrees
    rw [placed, countP_isNode hw] at hplaced
    rw [length_withCode_build hb (by decide), hf, Forest.length_descendants_map_normalize]
    omega
  · have hcarried := carried_reached ts
    rw [List.map_congr_left fun t ht => Token.length_events (hw t ht)] at hcarried
    rw [length_withCode_build hb (by decide), hf, Forest.length_components_map_normalize]
    exact hcarried
  · rw [length_withCode_build hb (by decide), reported_unrecognized_reached hw]
  · rw [hf] at hu
    obtain ⟨v, hv, he⟩ := exists_subtreeAt_of_normalize hu
    have hl := congrArg Rose.label he
    have hn := congrArg Rose.children he
    rw [Rose.label_map, Rose.label_map] at hl
    rw [Rose.children_map, Rose.children_map] at hn
    obtain ⟨hz, hm⟩ := childless_of_decorated hv (hl ▸ hc)
    rw [hz, List.map_nil] at hn
    exact ⟨List.map_eq_nil_iff.mp hn.symm, hm⟩

end

open Token in
/-- A stream that loses an event, a node and a token without meaning. -/
def lossyStream : List Token :=
  [.text "Colour" "red", bar, .text Keyword.rest.spelling "", root (.ofNat 4), leaf 1 (.below 1),
    leaf 1 (.below 0), .text Keyword.performerId.spelling "flute",
    .text Keyword.instrumentId.spelling "piccolo", .container Keyword.pitch.spelling none []]

theorem accounts_build_lossyStream :
    ∃ score, build false lossyStream = .ok score ∧ score.Accounts lossyStream ∧
      score.forest.descendants.length = 1 ∧ score.forest.components.length = 1 ∧
      (lossyStream.map Token.eventCount).sum = 2 := by
  have hb : build false lossyStream = .ok (reached lossyStream).toScore :=
    build_lenient_eq_ok.mpr ⟨by decide +kernel, rfl⟩
  exact ⟨_, hb, accounts_build hb, by decide +kernel, by decide +kernel, by decide +kernel⟩

end RhythmTree
