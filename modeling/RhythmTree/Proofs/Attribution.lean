import RhythmTree.Proofs.Conservation
import RhythmTree.Proofs.Contexts
import RhythmTree.Proofs.Events

/-!
# Where events go

An event goes to what is current at its token: it becomes a component of the current leaf, played by
the current performer on the current instrument. As long as one of the three is missing, it gets
lost, and the report says so.

* `attributions`, `losses`: what becomes of the events of a stream.
* `attach_of_context`, `attach_of_no_context`: **all events of a token share the context of the
  token.**
* `Attributed`, `attributed_reached`: the components on every node of a run.
* `attributed_build`: **the components of a score are the attributions, and its losses are
  reported.**
-/

namespace RhythmTree

open BuilderState

/-- A component that an event becomes, with the number of its token and the place of its leaf. -/
structure Attribution where
  index : Nat
  place : Place
  component : Component
  deriving DecidableEq, Repr

namespace Occurrence

/-- The components that the events of a token become. -/
def attributions (o : Occurrence) : List Attribution :=
  match context? o.before with
  | some c => o.token.played.map fun event => ⟨o.index, c.place, ⟨c.performer, c.instrument, event⟩⟩
  | none => []

/-- What is recorded about the events of a token that get lost. -/
def losses (o : Occurrence) : List Finding :=
  match context? o.before with
  | some _ => []
  | none => o.token.played.map fun _ => .missingContext o.index o.token.name (lacking o.before)

end Occurrence

/-- The components that the events of a stream become, in the order of the stream. -/
def attributions (ts : List Token) : List Attribution :=
  (occurrences ts).flatMap Occurrence.attributions

/-- What is recorded about the events of a stream that get lost. -/
def losses (ts : List Token) : List Finding := (occurrences ts).flatMap Occurrence.losses

theorem attributions_concat (ts : List Token) (t : Token) :
    attributions (ts ++ [t]) = attributions ts ++ Occurrence.attributions ⟨ts, t⟩ := by
  rw [attributions, occurrences_concat, List.flatMap_append, List.flatMap_singleton]
  rfl

theorem Occurrence.eq_nil_of_played {t : Token} (h : t.played = []) (before : List Token) :
    attributions ⟨before, t⟩ = [] ∧ losses ⟨before, t⟩ = [] := by
  unfold attributions losses
  dsimp only
  rw [h]
  cases context? before <;> exact ⟨rfl, rfl⟩

namespace BuilderState

/-! ### One token -/

/-- What an event is played with. -/
def context? (s : BuilderState) : Option Context :=
  s.leaf.bind fun place => s.performer.bind fun performer =>
    s.instrument.map fun instrument => ⟨place, performer, instrument⟩

theorem context?_reached (ts : List Token) : (reached ts).context? = RhythmTree.context? ts := by
  obtain ⟨hp, hi⟩ := Prod.mk.inj (players_reached ts)
  rw [context?, leaf_reached, hp, hi, RhythmTree.context?]

theorem lacks_reached (ts : List Token) : (reached ts).lacks = lacking ts := by
  obtain ⟨hp, hi⟩ := Prod.mk.inj (players_reached ts)
  rw [lacks, leaf_reached, hp, hi, lacking]
  simp only [Option.isNone_iff_eq_none]

variable {s : BuilderState} {c : Context}

theorem attachEvent_of_context (h : s.context? = some c) (index : Nat) (identifier : String)
    (event : Event) : s.attachEvent index identifier event =
      { s with forest := s.forest.addComponent ⟨c.performer, c.instrument, event⟩ c.place } := by
  obtain ⟨place, hl, h⟩ := Option.bind_eq_some_iff.mp h
  obtain ⟨performer, hp, h⟩ := Option.bind_eq_some_iff.mp h
  obtain ⟨instrument, hi, rfl⟩ := Option.map_eq_some_iff.mp h
  rw [attachEvent, hl, hp, hi]

theorem leaf_of_context (h : s.context? = some c) : s.leaf = some c.place := by
  obtain ⟨place, hl, h⟩ := Option.bind_eq_some_iff.mp h
  obtain ⟨performer, -, h⟩ := Option.bind_eq_some_iff.mp h
  obtain ⟨instrument, -, rfl⟩ := Option.map_eq_some_iff.mp h
  exact hl

theorem attachEvent_of_no_context (h : s.context? = none) (index : Nat) (identifier : String)
    (event : Event) :
    s.attachEvent index identifier event = s.record (.missingContext index identifier s.lacks) := by
  rw [attachEvent]
  split
  · next hl hp hi =>
    rw [context?, hl, hp, hi] at h
    cases h
  · rfl

/-- **All events of a token go to its leaf.** -/
theorem attach_of_context (h : s.context? = some c) (index : Nat) (identifier : String)
    (events : List Event) : s.attach index identifier events =
      { s with forest := events.foldl (fun f event =>
          f.addComponent ⟨c.performer, c.instrument, event⟩ c.place) s.forest } := by
  unfold attach
  induction events generalizing s with
  | nil => rfl
  | cons event rest ih =>
    rw [List.foldl_cons, List.foldl_cons, attachEvent_of_context h]
    exact ih h

/-- **Or all of them get lost.** -/
theorem attach_of_no_context (h : s.context? = none) (index : Nat) (identifier : String)
    (events : List Event) : s.attach index identifier events =
      { s with findings := s.findings ++
          events.map fun _ => .missingContext index identifier s.lacks } := by
  unfold attach
  induction events generalizing s with
  | nil =>
    rw [List.map_nil, List.append_nil]
    rfl
  | cons event rest ih =>
    have hr : (s.record (.missingContext index identifier s.lacks)).context? = none := h
    rw [List.foldl_cons, attachEvent_of_no_context h, ih hr, List.map_cons, List.append_cons]
    rfl

end BuilderState

/-! ### Components -/

/-- New components go behind those that are on the node, and other nodes keep theirs. -/
theorem Forest.nodeAt?_addComponents (f : Forest) (make : Event → Component) (p q : Place)
    (events : List Event) :
    (events.foldl (fun f event => f.addComponent (make event) p) f).nodeAt? q =
      (f.nodeAt? q).map fun n =>
        if q = p then { n with components := n.components ++ events.map make } else n := by
  induction events generalizing f with
  | nil => simp
  | cons event rest ih =>
    rw [List.foldl_cons, ih, nodeAt?_addComponent, Option.map_map]
    refine congrArg (Option.map · (f.nodeAt? q)) (funext fun n => ?_)
    by_cases h : q = p <;> simp [h]

/-- The components on every node are those that are attributed to it, in order. -/
structure Attributed (f : Forest) (as : List Attribution) : Prop where
  stands : ∀ a ∈ as, f.nodeAt? a.place ≠ none
  components : ∀ p n, f.nodeAt? p = some n →
    n.components = (as.filter fun a => a.place = p).map Attribution.component

namespace Attributed

variable {f f' : Forest} {as : List Attribution} {u : Tree} {p : Place}

theorem filter_eq_nil (h : Attributed f as) (hp : f.nodeAt? p = none) :
    as.filter (fun a => a.place = p) = [] := by
  refine List.filter_eq_nil_iff.mpr fun a ha he => ?_
  rw [← of_decide_eq_true he] at hp
  exact h.stands a ha hp

/-- A node that was not there gets no components. -/
theorem of_nodeAt? (h : Attributed f as) {new : Place} {n : Node} (hn : n.components = [])
    (free : f.nodeAt? new = none)
    (hf : ∀ q, f'.nodeAt? q = if q = new then some n else f.nodeAt? q) : Attributed f' as := by
  refine ⟨fun a ha => ?_, fun p m hm => ?_⟩
  · rw [hf]
    split
    · exact Option.some_ne_none n
    · exact h.stands a ha
  · rw [hf] at hm
    split at hm
    · next hp =>
      rw [hp, h.filter_eq_nil free, ← Option.some.inj hm, hn]
      rfl
    · exact h.components p m hm

theorem root (h : Attributed f as) (d a : Duration) : Attributed (f ++ [.ofDuration d a]) as :=
  h.of_nodeAt? rfl f.nodeAt?_nextRoot (Forest.nodeAt?_concat f d a)

theorem child (h : Attributed f as) (hu : f.subtreeAt p = some u) (beats : Int) :
    Attributed (f.addChild beats p) as :=
  h.of_nodeAt? rfl (Forest.nodeAt?_child_of_le hu (Nat.le_refl _))
    (Forest.nodeAt?_addChild hu beats)

theorem addComponents (h : Attributed f as) (hp : f.nodeAt? p ≠ none) (index : Nat)
    (make : Event → Component) (events : List Event) :
    Attributed (events.foldl (fun f event => f.addComponent (make event) p) f)
      (as ++ events.map fun event => ⟨index, p, make event⟩) := by
  refine ⟨fun a ha => ?_, fun q m hm => ?_⟩
  · rw [Forest.nodeAt?_addComponents, ne_eq, Option.map_eq_none_iff]
    rcases List.mem_append.mp ha with ha | ha
    · exact h.stands a ha
    · obtain ⟨event, -, rfl⟩ := List.mem_map.mp ha
      exact hp
  · rw [Forest.nodeAt?_addComponents] at hm
    obtain ⟨n, hn, rfl⟩ := Option.map_eq_some_iff.mp hm
    rw [List.filter_append, List.map_append, ← h.components q n hn, List.filter_map, List.map_map]
    by_cases hq : q = p
    · subst hq
      simp [Function.comp_def]
    · have hne : ¬ p = q := fun e => hq e.symm
      simp [hq, hne, Function.comp_def]

theorem after {s : BuilderState} {t : Token} (h : Attributed s.forest as) (ho : s.OpenStands)
    (hne : ∀ events, t.instruction? ≠ some (.attach events)) (index : Nat) :
    Attributed (s.after index t).forest as := by
  cases nodeStep_after s index t with
  | root d a _ hf _ _ =>
    rw [hf]
    exact h.root d a
  | child e path _ hp hf _ _ _ =>
    obtain ⟨u, hu⟩ := Forest.nodeAt?_ne_none_iff.mp (ho path hp)
    rw [hf]
    exact h.child hu e.beats
  | drop e _ hf _ _ _ =>
    rw [hf]
    exact h
  | play events hi _ => exact absurd hi (hne events)
  | idle _ hf _ _ =>
    rw [hf]
    exact h

end Attributed

/-! ### Along a run -/

theorem Token.played_eq {t : Token} (hw : t.isWellFormed = true) {events : List Event}
    (hi : t.instruction? = some (.attach events)) : t.played = events := by
  rw [← Token.events_eq_played hw, Token.events, hi]
  rfl

theorem Token.played_eq_nil {t : Token} (hw : t.isWellFormed = true)
    (hne : ∀ events, t.instruction? ≠ some (.attach events)) : t.played = [] := by
  rw [← Token.events_eq_played hw, Token.events_eq_nil hne]

namespace BuilderState

/-- **The components on every node of a run.** -/
theorem attributed_reached {ts : List Token} (hw : ∀ t ∈ ts, t.isWellFormed = true) :
    Attributed (reached ts).forest (attributions ts) := by
  induction ts using List.reverseRecOn with
  | nil =>
    refine ⟨fun a ha => ?_, fun p n hn => ?_⟩
    · cases ha
    · cases hn
  | append_singleton ts t ih =>
    have h := ih fun u hu => hw u (by simp [hu])
    have ht := hw t (by simp)
    rw [reached_concat, attributions_concat]
    by_cases ha : ∃ events, t.instruction? = some (.attach events)
    · obtain ⟨events, hi⟩ := ha
      have hs := context?_reached ts
      rw [after_of_instruction? hi, perform, Occurrence.attributions, Token.played_eq ht hi]
      cases hc : RhythmTree.context? ts with
      | none =>
        rw [attach_of_no_context (hs.trans hc), List.append_nil]
        exact h
      | some c =>
        -- the current leaf may be in an earlier tree, but it stands
        have hd := decorated_reached ts
        have hl := hd.stands c.place (hd.current c.place (leaf_of_context (hs.trans hc)))
        rw [attach_of_context (hs.trans hc)]
        exact h.addComponents hl ts.length _ events
    · have hne := not_exists.mp ha
      have hnil : t.played = [] := Token.played_eq_nil ht hne
      rw [(Occurrence.eq_nil_of_played hnil ts).1, List.append_nil]
      exact h.after (open_stands ts) hne ts.length

/-- The findings about events that got lost. -/
def lost (s : BuilderState) : List Finding := s.findings.filter fun f => f.code = "MISSING_CONTEXT"

theorem lost_after_of_silent {t : Token} (hne : ∀ events, t.instruction? ≠ some (.attach events))
    (s : BuilderState) (index : Nat) : (s.after index t).lost = s.lost := by
  cases hi : t.instruction? with
  | none =>
    rcases after_of_instruction?_eq_none hi s index with e | e <;> rw [e]
    simp [lost, record, Finding.code]
  | some i =>
    rw [after_of_instruction? hi]
    refine (records_perform index t.name i s).filter_eq fun f hf => decide_eq_false fun he => ?_
    obtain ⟨events, rfl⟩ := Instruction.eq_attach_of_mem_codes (he ▸ hf)
    exact hne events hi

/-- **What a token adds to these findings.** -/
theorem lost_after {t : Token} (hw : t.isWellFormed = true) (before : List Token) :
    ((reached before).after before.length t).lost =
      (reached before).lost ++ Occurrence.losses ⟨before, t⟩ := by
  by_cases ha : ∃ events, t.instruction? = some (.attach events)
  · obtain ⟨events, hi⟩ := ha
    have hs := context?_reached before
    rw [after_of_instruction? hi, perform, Occurrence.losses, Token.played_eq hw hi]
    cases hc : RhythmTree.context? before with
    | none =>
      rw [attach_of_no_context (hs.trans hc), lacks_reached, lost, List.filter_append]
      refine congrArg _ (List.filter_eq_self.mpr fun f hf => ?_)
      obtain ⟨event, -, rfl⟩ := List.mem_map.mp hf
      rfl
    | some c =>
      rw [attach_of_context (hs.trans hc), List.append_nil]
      rfl
  · have hne := not_exists.mp ha
    have hnil : t.played = [] := Token.played_eq_nil hw hne
    rw [(Occurrence.eq_nil_of_played hnil before).2, List.append_nil]
    exact lost_after_of_silent hne _ _

theorem lost_reached {ts : List Token} (hw : ∀ t ∈ ts, t.isWellFormed = true) :
    (reached ts).lost = losses ts :=
  log_reached rfl fun before t ht => lost_after (hw t ht) before

end BuilderState

/-! ### Scores -/

theorem Forest.map_components_nodeAt?_normalize (f : Forest) (p : Place) :
    (Forest.nodeAt? (f.map Tree.normalize) p).map Node.components =
      (f.nodeAt? p).map Node.components := by
  rw [nodeAt?_eq_bind, nodeAt?_eq_bind, List.getElem?_map]
  cases f[p.tree]? with
  | none => rfl
  | some t =>
    show ((Tree.normalize t).labelAt p.path).map _ = (t.labelAt p.path).map _
    rw [← Rose.labelAt_map, Tree.map_normalize (fun _ _ => rfl) (fun _ _ => rfl), Rose.labelAt_map]

/-- What a score says about the events of a stream. The components on its nodes are the attributions
of the events, each on the node of its leaf, and those on one node come in the order of the stream.
The other events are reported as lost, and all of them come before those that are not. -/
structure Score.Attributed (score : Score) (ts : List Token) : Prop where
  stands : ∀ a ∈ attributions ts, score.forest.nodeAt? a.place ≠ none
  components : ∀ (p : Place) (n : Node), score.forest.nodeAt? p = some n →
    n.components = ((attributions ts).filter fun a => a.place = p).map Attribution.component
  losses : score.report.withCode "MISSING_CONTEXT" = (losses ts).map Finding.issue
  losses_first : ∀ f ∈ RhythmTree.losses ts, ∀ a ∈ attributions ts,
    ∃ index, f.index? = some index ∧ index < a.index

section

variable {ts : List Token} {score : Score}

theorem exists_of_mem_attributions {a : Attribution} (h : a ∈ attributions ts) :
    ∃ o ∈ occurrences ts, a.index = o.index ∧ context? o.before ≠ none := by
  obtain ⟨o, ho, ha⟩ := List.mem_flatMap.mp h
  refine ⟨o, ho, ?_⟩
  rw [Occurrence.attributions] at ha
  cases hc : context? o.before with
  | none =>
    rw [hc] at ha
    cases ha
  | some c =>
    rw [hc] at ha
    obtain ⟨event, -, rfl⟩ := List.mem_map.mp ha
    exact ⟨rfl, Option.some_ne_none c⟩

theorem exists_of_mem_losses {f : Finding} (h : f ∈ losses ts) :
    ∃ o ∈ occurrences ts, f.index? = some o.index ∧ context? o.before = none := by
  obtain ⟨o, ho, hf⟩ := List.mem_flatMap.mp h
  refine ⟨o, ho, ?_⟩
  rw [Occurrence.losses] at hf
  cases hc : context? o.before with
  | some c =>
    rw [hc] at hf
    cases hf
  | none =>
    rw [hc] at hf
    obtain ⟨event, -, rfl⟩ := List.mem_map.mp hf
    exact ⟨rfl, rfl⟩

theorem losses_first (ts : List Token) : ∀ f ∈ losses ts, ∀ a ∈ attributions ts,
    ∃ index, f.index? = some index ∧ index < a.index := by
  intro f hf a ha
  obtain ⟨o, ho, hi, hn⟩ := exists_of_mem_losses hf
  obtain ⟨o', ho', hi', hs⟩ := exists_of_mem_attributions ha
  refine ⟨o.index, hi, ?_⟩
  rw [hi']
  by_contra hle
  -- what is complete at the one token is complete at the other
  have hp : o'.before <+: o.before :=
    List.prefix_of_prefix_length_le (Occurrence.before_isPrefix ho')
      (Occurrence.before_isPrefix ho) (Nat.le_of_not_lt hle)
  exact context?_of_isPrefix hp hs hn

/-- **The components of a score are the attributions of the events, and its losses are reported.** -/
theorem attributed_build (hb : build false ts = .ok score) : score.Attributed ts := by
  have hc : "MISSING_CONTEXT" ≠ "BEAT_WEIGHT" := by decide
  have hl := withCode_build hb hc
  obtain ⟨hw, rfl⟩ := build_lenient_eq_ok.mp hb
  have h := attributed_reached hw
  have hn := Forest.map_components_nodeAt?_normalize (reached ts).forest
  rw [← forest_toScore] at hn
  refine ⟨fun a ha he => ?_, fun p n hp => ?_, ?_, losses_first ts⟩
  · have hm := hn a.place
    rw [he, Option.map_none, eq_comm, Option.map_eq_none_iff] at hm
    exact h.stands a ha hm
  · have hm := hn p
    rw [hp, Option.map_some, eq_comm, Option.map_eq_some_iff] at hm
    obtain ⟨m, hm, he⟩ := hm
    rw [← he]
    exact h.components p m hm
  · rw [hl, ← lost_reached hw, lost]

end

open Token in
/-- A rest that comes too early, an event on a leaf, another one behind a new tree, and a dynamic for
another performer behind a leaf that gets lost. -/
def playedStream : List Token :=
  [.text Keyword.rest.spelling "", bar, root (.ofNat 4), leaf 1 (.below 0),
    .text Keyword.performerId.spelling "strings", .text Keyword.instrumentId.spelling "viola",
    .container Keyword.articulation.spelling none
      [.text Keyword.title.spelling "accent", .int Keyword.title.spelling 1 none],
    root (.ofNat 4), .text Keyword.rest.spelling "", leaf 1 (.below 1), leaf 1 (.below 0),
    .text Keyword.performerId.spelling "winds",
    .container Keyword.dynamicMarking.spelling none
      [.text Keyword.value.spelling "mf", .text Keyword.spannerStart.spelling ""]]

theorem attributed_build_playedStream :
    ∃ score, build false playedStream = .ok score ∧ score.Attributed playedStream ∧
      (losses playedStream).length = 1 ∧
      attributions playedStream =
        [⟨6, ⟨0, [0]⟩, ⟨"strings", "viola", .articulation ["accent"]⟩⟩,
          ⟨8, ⟨0, [0]⟩, ⟨"strings", "viola", .rest⟩⟩,
          ⟨12, ⟨1, [0]⟩, ⟨"winds", "viola", .dynamic "mf"⟩⟩,
          ⟨12, ⟨1, [0]⟩, ⟨"winds", "viola", .dynamicStart⟩⟩] := by
  have hb : build false playedStream = .ok (reached playedStream).toScore :=
    build_lenient_eq_ok.mpr ⟨by decide +kernel, rfl⟩
  exact ⟨_, hb, attributed_build hb, by decide +kernel, by decide +kernel⟩

end RhythmTree
