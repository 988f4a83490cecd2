import RhythmTree.Proofs.Performers

/-!
# Strict runs

A strict builder is a lenient one that halts at the first declaration with a type that does not
exist. Until then the two are in the same state, and a malformed token halts both alike.

* `Token.Passes`: a token that halts neither. `run_of_passes`: **behind such tokens the two runs are
  in the same state.**
* `build_cases`: how two runs of one stream end.
* `strict_lenient_agree`: **the two builders agree up to the first declaration that is refused.**
-/

namespace RhythmTree

open BuilderState

/-- A token that halts neither a strict builder nor a lenient one. -/
def Token.Passes (t : Token) : Prop :=
  ¬ t.Malformed ∧ ∀ performer typeName, ¬ t.Refused performer typeName

/-- Behind some tokens that pass comes a declaration that is refused. -/
def FirstRefusal (ts before : List Token) (performer typeName : Text) : Prop :=
  ∃ t after, ts = before ++ t :: after ∧ (∀ u ∈ before, u.Passes) ∧ t.Refused performer typeName

/-- What a builder that is through with a stream has found, or one that has halted. -/
def foundBy : Except Halted BuilderState → List Finding
  | .ok s => s.findings ++ indivisible s.forest
  | .error halted => halted.findings

/-- What a builder records along a stream, until it halts or is through. -/
def recorded (strict : Bool) (ts : List Token) : List Finding := foundBy (run strict {} 0 ts)

theorem report_build {strict : Bool} {ts : List Token} {score : Score}
    (h : build strict ts = .ok score) : score.report = .ofFindings (recorded strict ts) := by
  unfold build at h
  rw [recorded]
  cases hr : run strict {} 0 ts with
  | ok s =>
    rw [hr] at h
    rw [← Except.ok.inj h, foundBy, ← findings_closeMeasure s, ← forest_closeMeasure s]
    rfl
  | error halted =>
    rw [hr] at h
    cases h

namespace BuilderState

/-! ### One token -/

variable {t : Token}

/-- A token that passes is a step of either builder, to the same state. -/
theorem step_of_passes (h : t.Passes) (strict : Bool) (s : BuilderState) (index : Nat) :
    s.step strict index t = .ok (s.after index t) := by
  have hw : t.isWellFormed = true := Token.isWellFormed_iff.mpr h.1
  unfold step after
  cases hr : Reading.ofToken t with
  | unrecognized => rfl
  | malformed before m =>
    rw [Token.isWellFormed, hr] at hw
    cases hw
  | instruct i =>
    cases i with
    | rejectDeclaration performer typeName =>
      refine absurd (Token.refused_iff.mpr ?_) (h.2 performer typeName)
      rw [Token.instruction?, hr]
    | _ => rfl

theorem step_of_refused {performer typeName : Text} (h : t.Refused performer typeName)
    (s : BuilderState) (index : Nat) :
    s.step true index t =
      .error ⟨.unknownInstrument performer typeName, (s.after index t).findings⟩ := by
  have hi := Token.refused_iff.mp h
  rw [after_of_instruction? hi, step, Token.ofToken_of_instruction? hi]
  rfl

theorem step_of_malformed (h : t.Malformed) (s : BuilderState) (index : Nat) :
    ∃ m findings, ∀ strict, s.step strict index t = .error ⟨.malformed index m, findings⟩ := by
  obtain ⟨before, m, hr⟩ := Reading.isMalformed_ofToken.mpr h
  refine ⟨m, (s.attach index t.name before).findings, fun strict => ?_⟩
  rw [step, hr]

/-! ### Runs -/

theorem run_append (strict : Bool) (s : BuilderState) (index : Nat) (ts us : List Token) :
    run strict s index (ts ++ us) =
      (run strict s index ts).bind fun s' => run strict s' (index + ts.length) us := by
  induction ts generalizing s index with
  | nil => rfl
  | cons t rest ih =>
    rw [List.cons_append, run, run]
    cases s.step strict index t with
    | error halted => rfl
    | ok s' =>
      dsimp only
      rw [ih, List.length_cons, show index + 1 + rest.length = index + (rest.length + 1) by omega]

/-- **Behind tokens that pass, a strict run and a lenient one are in the same state.** -/
theorem run_of_passes {ts : List Token} (h : ∀ t ∈ ts, t.Passes) (strict : Bool)
    (s : BuilderState) (index : Nat) : run strict s index ts = .ok (s.afterAll index ts) := by
  induction ts generalizing s index with
  | nil => rfl
  | cons t rest ih =>
    obtain ⟨ht, hr⟩ := List.forall_mem_cons.mp h
    rw [run, step_of_passes ht]
    exact ih hr _ _

theorem run_append_of_passes {ts : List Token} (h : ∀ t ∈ ts, t.Passes) (strict : Bool)
    (us : List Token) : run strict {} 0 (ts ++ us) = run strict (reached ts) ts.length us := by
  rw [run_append, run_of_passes h, Nat.zero_add]
  rfl

/-! ### What is found stays -/

theorem findings_isPrefix_run (strict : Bool) (s : BuilderState) (index : Nat)
    (ts : List Token) : s.findings <+: foundBy (run strict s index ts) := by
  induction ts generalizing s index with
  | nil => exact List.prefix_append _ _
  | cons t rest ih =>
    obtain ⟨new, hnew, -⟩ := findings_step strict s index t
    have hp : s.findings <+: foundBehind (s.step strict index t) := hnew ▸ List.prefix_append _ _
    rw [run]
    cases hs : s.step strict index t with
    | ok s' =>
      rw [hs] at hp
      exact hp.trans (ih s' (index + 1))
    | error halted =>
      rw [hs] at hp
      exact hp

end BuilderState

/-! ### Two runs of one stream -/

section

variable {ts before : List Token} {performer typeName : Text}

theorem build_of_run {strict : Bool} {halted : Halted} (h : run strict {} 0 ts = .error halted) :
    build strict ts = .error halted := by
  rw [build, h]

theorem exists_first_not_passes (ts : List Token) : (∀ t ∈ ts, t.Passes) ∨
    ∃ before t after, ts = before ++ t :: after ∧ (∀ u ∈ before, u.Passes) ∧ ¬ t.Passes := by
  induction ts with
  | nil => exact .inl (by simp)
  | cons t rest ih =>
    by_cases ht : t.Passes
    · rcases ih with h | ⟨before, u, after, rfl, hb, hu⟩
      · exact .inl (List.forall_mem_cons.mpr ⟨ht, h⟩)
      · exact .inr ⟨t :: before, u, after, rfl, List.forall_mem_cons.mpr ⟨ht, hb⟩, hu⟩
    · exact .inr ⟨[], t, rest, rfl, by simp, ht⟩

/-- **Two runs of one stream are both through, or a malformed token halts both of them, or there is
a first declaration that is refused.** -/
theorem build_cases (ts : List Token) :
    ((∀ t ∈ ts, t.Passes) ∧ ∀ strict, build strict ts = .ok (reached ts).toScore) ∨
      (∃ index m findings, ∀ strict, build strict ts = .error ⟨.malformed index m, findings⟩) ∨
        ∃ before performer typeName, FirstRefusal ts before performer typeName := by
  rcases exists_first_not_passes ts with h | ⟨before, t, after, rfl, hb, ht⟩
  · refine .inl ⟨h, fun strict => ?_⟩
    rw [build, run_of_passes h]
    rfl
  · by_cases hm : t.Malformed
    · obtain ⟨m, findings, hs⟩ := step_of_malformed hm (reached before) before.length
      refine .inr (.inl ⟨before.length, m, findings, fun strict => build_of_run ?_⟩)
      rw [run_append_of_passes hb, run, hs]
    · -- a well-formed token that does not pass is refused
      have hr : ∃ performer typeName, t.Refused performer typeName := by
        by_contra hn
        exact ht ⟨hm, fun performer typeName h => hn ⟨performer, typeName, h⟩⟩
      obtain ⟨performer, typeName, hr⟩ := hr
      exact .inr (.inr ⟨before, performer, typeName, t, after, rfl, hb, hr⟩)

theorem refusals_of_passes (h : ∀ t ∈ ts, t.Passes) : refusals ts = [] := by
  rw [refusals, List.filterMap_eq_nil_iff]
  intro o ho
  obtain ⟨after, e⟩ := mem_occurrences.mp ho
  obtain ⟨hm, hr⟩ := h o.token (by simp [e])
  rw [Occurrence.refusal?]
  cases hd : o.token.declared? with
  | none => rfl
  | some performer =>
    cases hu : o.token.unknownType? with
    | none => rfl
    | some typeName => exact absurd ⟨hm, hd, hu⟩ (hr performer typeName)

/-- The first declaration that is refused is the first error, and it halts a strict builder. -/
theorem build_of_firstRefusal (h : FirstRefusal ts before performer typeName) :
    ∃ findings, build true ts = .error ⟨.unknownInstrument performer typeName, findings⟩ ∧
      findings <+: recorded false ts ∧
      (recorded false ts).find? (fun f => f.severity = .error) =
        some (.unknownInstrument before.length performer typeName) := by
  obtain ⟨t, after, rfl, hb, ht⟩ := h
  have hw : ∀ u ∈ before ++ [t], u.isWellFormed = true := by
    intro u hu
    rcases List.mem_append.mp hu with hu | hu
    · exact Token.isWellFormed_iff.mpr (hb u hu).1
    · rw [List.mem_singleton.mp hu]
      exact Token.isWellFormed_iff.mpr ht.1
  have hfound : (reached (before ++ [t])).findings <+: recorded false (before ++ t :: after) := by
    have hrun : run false {} 0 (before ++ [t]) = .ok (reached (before ++ [t])) :=
      run_lenient_eq_ok.mpr ⟨hw, rfl⟩
    rw [List.append_cons before t after, recorded, run_append, hrun]
    exact findings_isPrefix_run _ _ _ _
  have herrors : (reached (before ++ [t])).errors =
      [.unknownInstrument before.length performer typeName] := by
    rw [errors_reached hw, refusals, filterMap_occurrences_concat, ← refusals,
      refusals_of_passes hb, Occurrence.refusal?, ht.2.1, ht.2.2]
    rfl
  refine ⟨(reached (before ++ [t])).findings, build_of_run ?_, hfound, ?_⟩
  · rw [run_append_of_passes hb, run, step_of_refused ht, reached_concat]
  · obtain ⟨more, e⟩ := hfound
    rw [← e, List.find?_append, ← List.head?_filter, ← errors, herrors]
    rfl

/-- The issues about types that do not exist are the errors. -/
theorem withCode_unknownInstrument_build {score : Score} (hb : build false ts = .ok score) :
    score.report.withCode "INVALID_INSTRUMENT_TYPE" = (refusals ts).map Finding.issue := by
  rw [← errors_build hb, Report.errors, Report.ofSeverity, Report.withCode]
  refine List.filter_congr fun i hi => ?_
  rw [issues_build hb, ← List.map_append] at hi
  obtain ⟨f, -, rfl⟩ := List.mem_map.mp hi
  exact decide_eq_decide.mpr ((f.code_issue_eq_iff _).trans f.severity_eq_error_iff.symm)

/-- A stream that a strict builder gets through is one that a lenient builder gets through without
an issue about a type that does not exist, and the scores are the same. -/
theorem build_true_eq_ok_iff {score : Score} : build true ts = .ok score ↔
    build false ts = .ok score ∧ score.report.withCode "INVALID_INSTRUMENT_TYPE" = [] := by
  rcases build_cases ts with ⟨hp, h⟩ | ⟨index, m, findings, h⟩ | ⟨before, performer, typeName, h⟩
  · rw [h, h, iff_self_and]
    intro hs
    rw [withCode_unknownInstrument_build (by rw [h, hs]), refusals_of_passes hp, List.map_nil]
  · simp [h]
  · obtain ⟨findings, ht, -, hf⟩ := build_of_firstRefusal h
    rw [ht]
    refine iff_of_false (fun he => by cases he) ?_
    rintro ⟨hb, hn⟩
    -- the first error is among the issues of the lenient builder
    rw [withCode_unknownInstrument_build hb, ← errors_build hb, Report.errors, Report.ofSeverity,
      report_build hb, Report.ofFindings, List.filter_eq_nil_iff] at hn
    have hm := List.mem_of_find?_eq_some hf
    exact hn _ (List.mem_map_of_mem hm) (decide_eq_true rfl)

end

/-- **A strict builder and a lenient one agree up to the first declaration that is refused.** The
strict one gets through exactly the streams that the lenient one gets through without an issue about
a type that does not exist, with the same score. Where the first declaration that is refused comes
behind tokens that pass, it halts the strict builder, and it is the first error that the lenient one
records. All other streams end alike for both, and if they fail, by a malformed token. -/
theorem strict_lenient_agree (ts : List Token) :
    (∀ score, build true ts = .ok score ↔
      build false ts = .ok score ∧ score.report.withCode "INVALID_INSTRUMENT_TYPE" = []) ∧
    (∀ before performer typeName, FirstRefusal ts before performer typeName →
      ∃ findings, build true ts = .error ⟨.unknownInstrument performer typeName, findings⟩ ∧
        findings <+: recorded false ts ∧
        (recorded false ts).find? (fun f => f.severity = .error) =
          some (.unknownInstrument before.length performer typeName)) ∧
    ((∀ before performer typeName, ¬ FirstRefusal ts before performer typeName) →
      build true ts = build false ts ∧
        ∀ halted, build false ts = .error halted →
          ∃ index m, halted.error = .malformed index m) := by
  refine ⟨fun score => build_true_eq_ok_iff, fun _ _ _ h => build_of_firstRefusal h, fun hn => ?_⟩
  rcases build_cases ts with ⟨-, h⟩ | ⟨index, m, findings, h⟩ | ⟨before, performer, typeName, h⟩
  · refine ⟨by rw [h, h], fun halted he => ?_⟩
    rw [h] at he
    cases he
  · refine ⟨by rw [h, h], fun halted he => ⟨index, m, ?_⟩⟩
    rw [h] at he
    rw [← Except.error.inj he]
  · exact absurd h (hn before performer typeName)

/-- A title that is no text. -/
def numberedTitle : Token := .int Keyword.title.spelling 1 none

/-- A declaration that is refused, and a malformed token behind it. -/
def refusedStream : List Token := [.text Keyword.rest.spelling "", kazooToken, numberedTitle]

/-- The first stream is refused before it comes to its malformed token, the second one has nothing
else. -/
theorem strict_lenient_agree_refusedStream :
    (∃ findings,
      build true refusedStream = .error ⟨.unknownInstrument "strings" "Kazoo", findings⟩ ∧
        findings <+: recorded false refusedStream ∧
        (recorded false refusedStream).find? (fun f => f.severity = .error) =
          some (.unknownInstrument 1 "strings" "Kazoo")) ∧
      build true [numberedTitle] = build false [numberedTitle] ∧
        ∀ halted, build false [numberedTitle] = .error halted →
          ∃ index m, halted.error = .malformed index m := by
  have hp : ∀ u ∈ refusedStream.take 1, u.Passes := by
    intro u hu
    obtain rfl : u = .text Keyword.rest.spelling "" := List.mem_singleton.mp hu
    refine ⟨Token.isWellFormed_iff.mp (by decide +kernel), fun performer typeName hr => ?_⟩
    exact absurd (Token.isContainerOf_of_declared? hr.2.1) (by decide +kernel)
  have hf : FirstRefusal refusedStream (refusedStream.take 1) "strings" "Kazoo" :=
    ⟨kazooToken, refusedStream.drop 2, rfl, hp, refused_kazooToken⟩
  have hn : ∀ before performer typeName,
      ¬ FirstRefusal [numberedTitle] before performer typeName := by
    rintro before performer typeName ⟨t, after, e, -, hr⟩
    obtain rfl : t = numberedTitle := List.mem_singleton.mp (e ▸ by simp)
    exact absurd (Token.isContainerOf_of_declared? hr.2.1) (by decide +kernel)
  exact ⟨(strict_lenient_agree refusedStream).2.1 _ _ _ hf,
    (strict_lenient_agree [numberedTitle]).2.2 hn⟩

end RhythmTree
