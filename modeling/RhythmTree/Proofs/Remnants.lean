import RhythmTree.Builder.Parse
import RhythmTree.Proofs.Attribution
import RhythmTree.Proofs.Dumps
import RhythmTree.Proofs.Strictness

/-!
# What a failure leaves behind

A token that halts a builder leaves a report. It holds what the tokens before it have led to,
without the nodes that cannot be divided, which are only found at the end. Some tokens record
findings of their own before their fault comes up: a dynamic may have lost events by then, and a
declaration is recorded before it is refused. The builder is used up, and later streams leave
everything as it is.

* `Occurrence.remnants`: what a malformed token records before its fault comes up.
* `BuilderState.step_eq_error`, `BuilderState.run_eq_error`: **where and how a run is halted.**
* `Builder.parseAll_of_used`: a used builder answers no stream.
* `failed_parse`: **the report that a failed parse leaves, and what becomes of its builder.**
-/

namespace RhythmTree

open BuilderState

/-! ### Faults -/

namespace Token

/-- The events of a dynamic before the first value that is no text. -/
def heard (t : Token) : List Token :=
  if t.IsContainerOf .dynamicMarking then
    (t.nested.takeWhile fun u => ¬ (u.Carries .value ∧ u.text? = none)).filter
      fun u => u.IsDynamicEvent
  else []

end Token

/-- What a malformed token records before its fault comes up: a dynamic has lost the events before
the value that is no text, unless there is something to play them with. -/
def Occurrence.remnants (o : Occurrence) : List Finding :=
  if context? o.before = none then
    o.token.heard.map fun _ => .missingContext o.index o.token.name (lacking o.before)
  else []

open Token

namespace Reading

variable {t : Token} {ts : List Token} {k : Keyword} {events : List Event} {m : Malformation}
  {name : String} {opening : Option Text}

theorem length_dynamics_takeWhile (ts : List Token) : (dynamics ts).1.length =
    ((ts.takeWhile fun u => ¬ (u.Carries .value ∧ u.text? = none)).filter
      fun u => u.IsDynamicEvent).length := by
  induction ts with
  | nil => rfl
  | cons t rest ih =>
    simp only [dynamics, List.takeWhile_cons, ← keyword?_eq_some_iff, isDynamicEvent_iff] at ih ⊢
    split
    · next hk =>
      cases t with
      | text i value => simp [hk, textPayload, text?, ih]
      | _ => simp [hk, textPayload, text?]
    · next hk => simp [hk, ih]
    · next hk => simp [hk, ih]
    · next hv hs hp => simp [eq_false hv, eq_false hs, eq_false hp, ih]

theorem eq_nil_of_ofPayload {α : Type} {payload : Except Malformation α} {f : α → Instruction}
    (h : ofPayload payload f = .malformed events m) : events = [] := by
  cases payload with
  | ok value => cases h
  | error m => exact (malformed.inj h).1.symm

theorem eq_nil_of_ofNode {f : Int → Level → Instruction}
    (h : ofNode t f = .malformed events m) : events = [] := by
  unfold ofNode at h
  split at h
  · cases h
  · exact (malformed.inj h).1.symm

theorem eq_nil_of_ofMode (h : ofMode t = .malformed events m) : events = [] := by
  unfold ofMode at h
  split at h
  · exact (malformed.inj h).1.symm
  · split at h
    · cases h
    · exact (malformed.inj h).1.symm

theorem eq_nil_of_ofAtom (h : ofAtom k t = .malformed events m) : events = [] := by
  cases k with
  | stackMode => exact eq_nil_of_ofMode h
  | rootDuration =>
    cases t with
    | duration i value => cases h
    | _ => exact (malformed.inj h).1.symm
  | innerNode | leafNode => exact eq_nil_of_ofNode h
  | performerId | instrumentId | title | metadataKey | metadataValue | rehearsalMarking =>
    exact eq_nil_of_ofPayload h
  | _ => cases h

theorem eq_nil_of_ofTempo (h : ofTempo name ts = .malformed events m) : events = [] := by
  unfold ofTempo at h
  split at h
  · exact (malformed.inj h).1.symm
  · exact (malformed.inj h).1.symm
  · cases h

theorem eq_nil_of_ofDeclaration (h : ofDeclaration name opening ts = .malformed events m) :
    events = [] := by
  unfold ofDeclaration at h
  split at h
  · exact (malformed.inj h).1.symm
  · exact (malformed.inj h).1.symm
  · split at h
    · exact (malformed.inj h).1.symm
    · unfold ofInstruments at h
      split at h
      · cases h
      · exact (malformed.inj h).1.symm
      · cases h

theorem eq_nil_of_ofContainer (hk : k ≠ .dynamicMarking)
    (h : ofContainer k name opening ts = .malformed events m) : events = [] := by
  cases k with
  | performerDeclaration => exact eq_nil_of_ofDeclaration h
  | tempoMarking => exact eq_nil_of_ofTempo h
  | dynamicMarking => exact absurd rfl hk
  | _ => cases h

/-- **A malformed token has asked for the events before its fault.** -/
theorem length_before_of_malformed (h : ofToken t = .malformed events m) :
    events.length = t.heard.length := by
  cases hk : t.keyword? with
  | none =>
    rw [ofToken, hk] at h
    cases h
  | some k =>
    have key : t.Carries k := keyword?_eq_some_iff.mp hk
    cases t with
    | container i opening ts =>
      rw [ofToken_of_container key] at h
      by_cases hd : k = .dynamicMarking
      · subst hd
        have hi : (Token.container i opening ts).IsContainerOf .dynamicMarking := ⟨rfl, key⟩
        rw [Token.heard, if_pos hi]
        show _ = ((ts.takeWhile _).filter _).length
        rw [← length_dynamics_takeWhile]
        have hr : ofDynamics ts = .malformed events m := h
        unfold ofDynamics at hr
        split at hr
        · cases hr
        · next he => rw [he, (malformed.inj hr).1]
      · have hi : ¬ (Token.container i opening ts).IsContainerOf .dynamicMarking :=
          fun hi => hd (key.unique hi.2)
        rw [eq_nil_of_ofContainer hd h, Token.heard, if_neg hi]
        rfl
    | _ =>
      rw [ofToken_of_atom rfl key] at h
      rw [eq_nil_of_ofAtom h]
      rfl

end Reading

namespace BuilderState

/-! ### Where a run is halted -/

variable {strict : Bool} {t : Token} {ts : List Token} {s : BuilderState} {index : Nat}
  {halted : Halted}

/-- **A token that halts a builder is malformed, or it is refused by a strict builder.** -/
theorem step_eq_error (h : s.step strict index t = .error halted) :
    (∃ m events, Reading.ofToken t = .malformed events m ∧
      halted = ⟨.malformed index m, (s.attach index t.name events).findings⟩) ∨
    (strict = true ∧ ∃ performer typeName, t.Refused performer typeName ∧
      halted = ⟨.unknownInstrument performer typeName,
        s.findings ++ [.unknownInstrument index performer typeName]⟩) := by
  unfold step at h
  cases hr : Reading.ofToken t with
  | unrecognized =>
    rw [hr] at h
    cases h
  | malformed events m =>
    rw [hr] at h
    exact .inl ⟨m, events, rfl, (Except.error.inj h).symm⟩
  | instruct i =>
    rw [hr] at h
    cases i with
    | rejectDeclaration performer typeName =>
      cases strict with
      | false => cases h
      | true =>
        refine .inr ⟨rfl, performer, typeName, Token.refused_iff.mpr ?_, (Except.error.inj h).symm⟩
        rw [Token.instruction?, hr]
    | _ => cases h

/-- **A run that is halted is halted by one of its tokens, behind a run that is not.** -/
theorem run_eq_error (h : run strict s index ts = .error halted) :
    ∃ before t rest s', ts = before ++ t :: rest ∧ run strict s index before = .ok s' ∧
      s'.step strict (index + before.length) t = .error halted := by
  induction ts generalizing s index with
  | nil => cases h
  | cons t rest ih =>
    rw [run] at h
    cases hs : s.step strict index t with
    | error other =>
      rw [hs] at h
      cases h
      exact ⟨[], t, rest, s, rfl, rfl, hs⟩
    | ok middle =>
      rw [hs] at h
      obtain ⟨before, u, after, s', rfl, hrun, hstep⟩ := ih h
      refine ⟨t :: before, u, after, s', rfl, ?_, ?_⟩
      · rw [run, hs]
        exact hrun
      · rw [List.length_cons, show index + (before.length + 1) = index + 1 + before.length by omega]
        exact hstep

/-- What the events of a malformed token leave behind the tokens before it. -/
theorem findings_attach_of_malformed {events : List Event} {m : Malformation}
    (h : Reading.ofToken t = .malformed events m) (before : List Token) :
    ((reached before).attach before.length t.name events).findings =
      (reached before).findings ++ Occurrence.remnants ⟨before, t⟩ := by
  have hl := Reading.length_before_of_malformed h
  have hc := context?_reached before
  rw [Occurrence.remnants, ← lacks_reached]
  cases hx : RhythmTree.context? before with
  | none =>
    rw [attach_of_no_context (hc.trans hx), if_pos rfl, List.map_const', List.map_const', hl]
    rfl
  | some c =>
    rw [attach_of_context (hc.trans hx), if_neg (Option.some_ne_none c), List.append_nil]

end BuilderState

section

variable {strict : Bool} {ts : List Token} {halted : Halted}

/-- **A stream that halts a builder has a token that does so, behind a stream that does not.** The
findings that are left are those behind the tokens before it, and those of the token itself. -/
theorem build_eq_error (h : build strict ts = .error halted) :
    ∃ before t rest score, ts = before ++ t :: rest ∧ build strict before = .ok score ∧
      ((∃ m, halted.error = .malformed before.length m ∧ t.Malformed ∧
        halted.findings.map Finding.issue = score.report.withoutCode "BEAT_WEIGHT" ++
          (Occurrence.remnants ⟨before, t⟩).map Finding.issue) ∨
      (strict = true ∧ ∃ performer typeName, t.Refused performer typeName ∧
        halted.error = .unknownInstrument performer typeName ∧
        halted.findings.map Finding.issue = score.report.withoutCode "BEAT_WEIGHT" ++
          [(Finding.unknownInstrument before.length performer typeName).issue])) := by
  have hrun : run strict {} 0 ts = .error halted := by
    unfold build at h
    split at h
    · cases h
    · next other ho => rw [ho, Except.error.inj h]
  obtain ⟨before, t, rest, s, rfl, hs, hstep⟩ := run_eq_error hrun
  have hbuild : build strict before = .ok s.toScore := by rw [build, hs]
  obtain rfl : reached before = s := (run_lenient_eq_ok.mp (run_lenient_of_run hs)).2
  have hreport := withoutCode_build (build_lenient_of_build hbuild)
  rw [Nat.zero_add] at hstep
  refine ⟨before, t, rest, _, rfl, hbuild, ?_⟩
  rcases step_eq_error hstep with ⟨m, events, hr, rfl⟩ | ⟨hstrict, performer, typeName, ht, rfl⟩
  · refine .inl ⟨m, rfl, Reading.isMalformed_ofToken.mp ⟨events, m, hr⟩, ?_⟩
    rw [findings_attach_of_malformed hr, List.map_append, hreport]
  · refine .inr ⟨hstrict, performer, typeName, ht, rfl, ?_⟩
    rw [List.map_append, hreport]
    rfl

end

/-! ### Builders -/

namespace Builder

/-- The answers to streams one after another, and the builder afterwards. -/
def parseAll (b : Builder) : List Document → List (Except ParseError Score) × Builder
  | [] => ([], b)
  | raw :: rest =>
    let (answer, used) := b.parse raw
    let (answers, last) := used.parseAll rest
    (answer :: answers, last)

/-- **A used builder answers no stream and stays as it is.** -/
theorem parseAll_of_used {b : Builder} (h : b.used = true) (later : List Document) :
    b.parseAll later = (later.map fun _ => .error .spent, b) := by
  induction later with
  | nil => rfl
  | cons raw rest ih =>
    rw [parseAll, parse_of_used h]
    dsimp only
    rw [ih, List.map_cons]

end Builder

/-- **A parse that fails at a token leaves what the tokens before it have led to, and what the token
has recorded itself.** The tokens before it make a score on their own, and its issues, apart from
those about weights, come first in the report. If the token is a dynamic with a value that is no
text, and there is nothing to play its events with, every event before that value has been recorded
as lost; a declaration that a strict builder refuses has been recorded as such; and no other token
has recorded anything. However the first parse has ended, the builder answers no later stream, and
its report stays as it is. -/
theorem failed_parse :
    (∀ (strict : Bool) (raw : Document) (ts : List Token) (error : ParseError) (left : Builder),
      tokensOf raw = .ok ts → Builder.parse { strict := strict } raw = (.error error, left) →
        ∃ before t rest score, ts = before ++ t :: rest ∧ build strict before = .ok score ∧
          ((∃ m, error = .halted (.malformed before.length m) ∧ t.Malformed ∧
            left.report.issues = score.report.withoutCode "BEAT_WEIGHT" ++
              (Occurrence.remnants ⟨before, t⟩).map Finding.issue) ∨
          (strict = true ∧ ∃ performer typeName,
            error = .halted (.unknownInstrument performer typeName) ∧
            t.Refused performer typeName ∧
            left.report.issues = score.report.withoutCode "BEAT_WEIGHT" ++
              [(Finding.unknownInstrument before.length performer typeName).issue]))) ∧
    ∀ (b : Builder) (raw : Document) (later : List Document),
      (b.parse raw).2.parseAll later = (later.map fun _ => .error .spent, (b.parse raw).2) := by
  refine ⟨fun strict raw ts error left hts hp => ?_, fun b raw later =>
    Builder.parseAll_of_used (b.used_parse raw) later⟩
  rw [Builder.parse, if_neg Bool.false_ne_true, parseReporting, hts] at hp
  dsimp only at hp
  cases hb : build strict ts with
  | ok score =>
    rw [hb] at hp
    cases hp
  | error halted =>
    rw [hb] at hp
    obtain ⟨he, rfl⟩ := Prod.mk.inj hp
    obtain rfl := Except.error.inj he
    obtain ⟨before, t, rest, score, e, hs, hcases⟩ := build_eq_error hb
    refine ⟨before, t, rest, score, e, hs, ?_⟩
    rcases hcases with ⟨m, hm, ht, hl⟩ | ⟨hstrict, performer, typeName, ht, hu, hl⟩
    · exact .inl ⟨m, by rw [hm], ht, hl⟩
    · exact .inr ⟨hstrict, performer, typeName, by rw [hu], ht, hl⟩

/-- A dynamic with two events before a value that is no text. -/
def spoiledDynamic : Token :=
  .container Keyword.dynamicMarking.spelling none
    [.text Keyword.value.spelling "p", .text Keyword.spannerStart.spelling "",
      .int Keyword.value.spelling 3 none, .text Keyword.value.spelling "f"]

/-- The dynamic behind a leaf that belongs to no tree and a performer, without an instrument. -/
def spoiledStream : List Token :=
  [.leaf 1 (.below 0), .text Keyword.performerId.spelling "strings", spoiledDynamic, .bar]

theorem failed_parse_spoiledStream :
    ∃ left, Builder.parse { strict := true } (.list (Token.toDocuments spoiledStream)) =
        (.error (.halted (.malformed 2 ⟨"Value", .notText⟩)), left) ∧
      (∃ score, build true (spoiledStream.take 2) = .ok score ∧
        left.report.issues = score.report.withoutCode "BEAT_WEIGHT" ++
          List.replicate 2 (Finding.missingContext 2 "DynamicMarking" [.leaf, .instrument]).issue) ∧
      left.parseAll [.list [], .null] = ([.error .spent, .error .spent], left) := by
  have hts : tokensOf (.list (Token.toDocuments spoiledStream)) = .ok spoiledStream := rfl
  have hp : Builder.parse { strict := true } (.list (Token.toDocuments spoiledStream)) =
      (.error (.halted (.malformed 2 ⟨"Value", .notText⟩)),
        (Builder.parse { strict := true } (.list (Token.toDocuments spoiledStream))).2) := rfl
  obtain ⟨hfail, hlater⟩ := failed_parse
  refine ⟨_, hp, ?_, hlater _ _ _⟩
  obtain ⟨before, t, rest, score, e, hb, ⟨m, hm, -, hi⟩ | ⟨-, _, _, hm, -⟩⟩ :=
    hfail _ _ _ _ _ hts hp
  · have hlen : 2 = before.length :=
      (BuildError.malformed.inj (ParseError.halted.inj hm)).1
    obtain ⟨rfl, er⟩ := List.append_inj (show spoiledStream.take 2 ++ [spoiledDynamic, .bar] =
      before ++ t :: rest from e) hlen
    obtain ⟨rfl, -⟩ := List.cons.inj er
    refine ⟨score, hb, hi.trans (congrArg _ ?_)⟩
    decide +kernel
  · cases hm

end RhythmTree
