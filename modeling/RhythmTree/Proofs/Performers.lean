import RhythmTree.Proofs.Declarations

/-!
# The table of the performers

A declaration gives its performer a place in the table, behind those who have one. If all its types
exist, it also settles the instruments of the performer; otherwise they stay what they were, and the
report gets an error.

* `performers_after`, `errors_after`: **what a token does to the table, and to the errors.**
* `Registered`, `registered_reached`: what the table says about the tokens of a run.
* `performers_build`: **the table and the errors of a score in terms of its declarations.**
-/

namespace RhythmTree

open BuilderState

/-- The error about a declaration with a type that does not exist. -/
def Occurrence.refusal? (o : Occurrence) : Option Finding :=
  o.token.declared?.bind fun performer =>
    o.token.unknownType?.map fun name => .unknownInstrument o.index performer name

/-- The errors about the declarations of a stream. -/
def refusals (ts : List Token) : List Finding := (occurrences ts).filterMap Occurrence.refusal?

/-- The declarations of a performer in which all types exist. -/
def declarationsOf (performer : Text) (ts : List Token) : List Token :=
  ts.filter fun t => t.declared? = some performer ∧ t.unknownType? = none

/-! ### Errors among the findings -/

theorem Finding.severity_eq_error_iff (f : Finding) :
    f.severity = .error ↔ f.code = "INVALID_INSTRUMENT_TYPE" := by
  cases f <;> simp [severity, code]

theorem Instruction.isDeclaration_of_mem_codes {i : Instruction}
    (h : "INVALID_INSTRUMENT_TYPE" ∈ i.codes) : i.isDeclaration = true := by
  cases i with
  | rejectDeclaration performer typeName => rfl
  | _ => simp [codes] at h

namespace BuilderState

/-- The findings that are errors. -/
def errors (s : BuilderState) : List Finding := s.findings.filter fun f => f.severity = .error

theorem errors_record (s : BuilderState) (f : Finding) :
    (s.record f).errors = s.errors ++ if f.severity = .error then [f] else [] := by
  simp only [errors, record, List.filter_append, List.filter_cons, List.filter_nil,
    decide_eq_true_eq]

/-! ### One token -/

variable {t : Token}

theorem after_of_not_declaration (h : ¬ t.IsContainerOf .performerDeclaration) (s : BuilderState)
    (index : Nat) :
    (s.after index t).performers = s.performers ∧ (s.after index t).errors = s.errors := by
  cases hi : t.instruction? with
  | none =>
    rcases after_of_instruction?_eq_none hi s index with e | e
    · rw [e]
      exact ⟨rfl, rfl⟩
    · rw [e, errors_record]
      exact ⟨rfl, List.append_nil _⟩
  | some i =>
    have hd : i.isDeclaration = false := by
      refine eq_false_of_ne_true fun hd => h ?_
      exact Token.isContainerOf_of_isDeclaration hi hd
    rw [after_of_instruction? hi]
    refine ⟨performers_perform_of_not hd index t.name s, ?_⟩
    refine (records_perform index t.name i s).filter_eq fun f hf => decide_eq_false fun he => ?_
    rw [f.severity_eq_error_iff.mp he] at hf
    rw [Instruction.isDeclaration_of_mem_codes hf] at hd
    cases hd

/-- A declaration puts its assignments into the table, or it only takes a place there. -/
theorem performers_after (hw : t.isWellFormed = true) (s : BuilderState) (index : Nat) :
    (s.after index t).performers =
      match t.declared? with
      | none => s.performers
      | some performer =>
        if t.unknownType? = none then s.performers.put performer (.ofList (assignments t.nested))
        else s.performers.putIfAbsent performer .empty := by
  by_cases h : t.IsContainerOf .performerDeclaration
  · obtain ⟨performer, hp, ⟨name, hn, hi⟩ | ⟨hn, hi⟩⟩ := Token.declaration_cases hw h
    · rw [hp, hn, after_of_instruction? hi]
      rfl
    · rw [hp, hn, after_of_instruction? hi]
      rfl
  · rw [Token.declared?_eq_none h]
    exact (after_of_not_declaration h s index).1

/-- **A declaration adds one error if a type in it does not exist, and no other token adds one.** -/
theorem errors_after (hw : t.isWellFormed = true) (s : BuilderState) (before : List Token) :
    (s.after before.length t).errors =
      s.errors ++ (Occurrence.refusal? ⟨before, t⟩).toList := by
  rw [Occurrence.refusal?]
  by_cases h : t.IsContainerOf .performerDeclaration
  · obtain ⟨performer, hp, ⟨name, hn, hi⟩ | ⟨hn, hi⟩⟩ := Token.declaration_cases hw h
    · rw [hp, hn, after_of_instruction? hi]
      exact errors_record s _
    · rw [hp, hn, after_of_instruction? hi]
      exact (List.append_nil _).symm
  · rw [Token.declared?_eq_none h, (after_of_not_declaration h s before.length).2]
    exact (List.append_nil _).symm

end BuilderState

/-! ### Along a run -/

theorem errors_reached {ts : List Token} (hw : ∀ t ∈ ts, t.isWellFormed = true) :
    (reached ts).errors = refusals ts := by
  rw [refusals, List.filterMap_eq_flatMap_toList]
  exact log_reached rfl fun before t ht => errors_after (hw t ht) _ before

/-- A table lists the performers of some declarations in the order in which they are first declared,
each with what the last declaration without unknown types assigns. -/
structure Registered (table : Table Text Instruments) (ts : List Token) : Prop where
  keys : table.keys = (ts.filterMap Token.declared?).eraseDups
  instruments : ∀ performer, (table.get? performer).getD .empty =
    (declarationsOf performer ts).getLast?.elim .empty fun t => .ofList (assignments t.nested)

theorem declarationsOf_concat (performer : Text) (ts : List Token) (t : Token) :
    declarationsOf performer (ts ++ [t]) = declarationsOf performer ts ++
      if t.declared? = some performer ∧ t.unknownType? = none then [t] else [] := by
  simp only [declarationsOf, List.filter_append, List.filter_cons, List.filter_nil,
    decide_eq_true_eq]

namespace Registered

variable {table : Table Text Instruments} {ts : List Token} {t : Token} {performer : Text}

theorem of_not_declaration (h : Registered table ts) (ht : t.declared? = none) :
    Registered table (ts ++ [t]) := by
  refine ⟨?_, fun id => ?_⟩
  · rw [h.keys, List.filterMap_append, List.filterMap_cons_none ht, List.filterMap_nil,
      List.append_nil]
  · have hn : ¬ (t.declared? = some id ∧ t.unknownType? = none) := by
      rw [ht]
      exact fun hc => Option.some_ne_none id hc.1.symm
    rw [h.instruments, declarationsOf_concat, if_neg hn, List.append_nil]

theorem put (h : Registered table ts) (ht : t.declared? = some performer)
    (hu : t.unknownType? = none) :
    Registered (table.put performer (.ofList (assignments t.nested))) (ts ++ [t]) := by
  refine ⟨?_, fun id => ?_⟩
  · rw [List.filterMap_append, List.filterMap_cons_some ht, List.filterMap_nil]
    exact Table.keys_put_eq_eraseDups h.keys performer _
  · rw [Table.get?_put, declarationsOf_concat, ht, hu]
    by_cases he : id = performer
    · subst he
      simp
    · have hn : ¬ (some performer = some id ∧ (none : Option Text) = none) :=
        fun hc => he (Option.some.inj hc.1).symm
      rw [if_neg he, if_neg hn, List.append_nil, h.instruments]

/-- A refused declaration changes no instruments: a performer that is new has none. -/
theorem putIfAbsent (h : Registered table ts) (ht : t.declared? = some performer)
    (hu : t.unknownType? ≠ none) :
    Registered (table.putIfAbsent performer .empty) (ts ++ [t]) := by
  refine ⟨?_, fun id => ?_⟩
  · rw [List.filterMap_append, List.filterMap_cons_some ht, List.filterMap_nil]
    exact Table.keys_putIfAbsent_eq_eraseDups h.keys performer _
  · have hn : ¬ (t.declared? = some id ∧ t.unknownType? = none) := fun hc => hu hc.2
    rw [Table.get?_putIfAbsent, declarationsOf_concat, if_neg hn, List.append_nil,
      ← h.instruments]
    split
    · next hk =>
      obtain ⟨rfl, hk⟩ := hk
      rw [Table.get?_eq_none hk]
      rfl
    · rfl

end Registered

/-- **Behind a run the table lists its declarations.** -/
theorem registered_reached {ts : List Token} (hw : ∀ t ∈ ts, t.isWellFormed = true) :
    Registered (reached ts).performers ts := by
  induction ts using List.reverseRecOn with
  | nil => exact ⟨rfl, fun _ => rfl⟩
  | append_singleton ts t ih =>
    have h := ih fun u hu => hw u (by simp [hu])
    rw [reached_concat, performers_after (hw t (by simp))]
    cases ht : t.declared? with
    | none => exact h.of_not_declaration ht
    | some performer =>
      dsimp only
      split
      · next hu => exact h.put ht hu
      · next hu => exact h.putIfAbsent ht hu

/-! ### Scores -/

section

variable {ts : List Token} {score : Score}

theorem performers_toScore (s : BuilderState) : s.toScore.performers = s.performers :=
  congrArg Catalogue.performers (catalogue_closeMeasure s)

theorem errors_build (hb : build false ts = .ok score) :
    score.report.errors = (refusals ts).map Finding.issue := by
  have hn : ((indivisible (reached ts).forest).map Finding.issue).filter
      (fun i => i.severity = .error) = [] := by
    refine List.filter_eq_nil_iff.mpr fun i hi => ?_
    obtain ⟨f, hf, rfl⟩ := List.mem_map.mp hi
    have hc := code_of_mem_indivisible hf
    rw [decide_eq_true_eq, Finding.issue, f.severity_eq_error_iff, hc]
    decide
  rw [Report.errors, Report.ofSeverity, issues_build hb, List.filter_append, hn, List.append_nil,
    List.filter_map, ← errors_reached (build_lenient_eq_ok.mp hb).1, errors]
  rfl

end

/-- What a score says about the declarations of a stream. Its performers stand in the order in which
they are first declared, each with the instruments that its last declaration without unknown types
assigns. A declaration with an unknown type is one error. -/
structure Score.Lists (score : Score) (ts : List Token) : Prop where
  ids : score.performerIds = (ts.filterMap Token.declared?).eraseDups
  instruments : ∀ performer, match (declarationsOf performer ts).getLast? with
    | none => score.instrumentsFor performer = .empty
    | some t => (score.instrumentsFor performer).Collects (assignments t.nested)
  errors : score.report.errors = (refusals ts).map Finding.issue

section

variable {ts : List Token} {score : Score}

theorem lists_build (hb : build false ts = .ok score) : score.Lists ts := by
  have he := errors_build hb
  obtain ⟨hw, rfl⟩ := build_lenient_eq_ok.mp hb
  have h := registered_reached hw
  refine ⟨?_, fun performer => ?_, he⟩
  · rw [Score.performerIds, performers_toScore, h.keys]
  · rw [Score.instrumentsFor, performers_toScore, h.instruments]
    cases (declarationsOf performer ts).getLast? with
    | none => rfl
    | some t => exact Table.collects_ofList _

/-- What a declaration that is refused leaves: nothing that was in the table changes, and there is
one more error. -/
theorem refused_build {before : List Token} {t : Token} {performer typeName : Text}
    (hw : ∀ u ∈ before ++ [t], u.isWellFormed = true) (ht : t.Refused performer typeName) :
    ∃ a b, build false before = .ok a ∧ build false (before ++ [t]) = .ok b ∧
      a.performers.entries <+: b.performers.entries ∧
      (∀ id, b.instrumentsFor id = a.instrumentsFor id) ∧
      b.report.errors = a.report.errors ++
        [(Finding.unknownInstrument before.length performer typeName).issue] := by
  have ha : build false before = .ok (reached before).toScore :=
    build_lenient_eq_ok.mpr ⟨fun u hu => hw u (by simp [hu]), rfl⟩
  have hb : build false (before ++ [t]) = .ok (reached (before ++ [t])).toScore :=
    build_lenient_eq_ok.mpr ⟨hw, rfl⟩
  obtain ⟨-, hd, hu⟩ := ht
  have hu' : t.unknownType? ≠ none := by simp [hu]
  refine ⟨_, _, ha, hb, ?_, fun id => ?_, ?_⟩
  · rw [performers_toScore, performers_toScore, reached_concat, performers_after (hw t (by simp)),
      hd]
    simp only [if_neg hu']
    exact Table.entries_isPrefix_putIfAbsent _ _ _
  · -- the declaration is none of those that settle the instruments
    have h := registered_reached hw
    have h' : Registered (reached before).performers before :=
      registered_reached fun u hu => hw u (by simp [hu])
    have hn : ¬ (t.declared? = some id ∧ t.unknownType? = none) := fun hc => hu' hc.2
    rw [Score.instrumentsFor, Score.instrumentsFor, performers_toScore, performers_toScore,
      h.instruments, h'.instruments, declarationsOf_concat, if_neg hn, List.append_nil]
  · rw [errors_build ha, errors_build hb, refusals, filterMap_occurrences_concat, List.map_append,
      Occurrence.refusal?, hd, hu]
    rfl

/-- **The table and the errors of a score in terms of its declarations.** A declaration with an
unknown type keeps everything that was in the table, and adds one error. -/
theorem performers_build (hb : build false ts = .ok score) :
    score.Lists ts ∧
      ∀ before t after performer typeName, ts = before ++ t :: after →
        t.Refused performer typeName →
          ∃ a b, build false before = .ok a ∧ build false (before ++ [t]) = .ok b ∧
            a.performers.entries <+: b.performers.entries ∧
            (∀ id, b.instrumentsFor id = a.instrumentsFor id) ∧
            b.report.errors = a.report.errors ++
              [(Finding.unknownInstrument before.length performer typeName).issue] := by
  refine ⟨lists_build hb, ?_⟩
  rintro before t after performer typeName rfl ht
  have hw := (build_lenient_eq_ok.mp hb).1
  refine refused_build (fun u hu => hw u ?_) ht
  rw [List.append_cons]
  exact List.mem_append_left after hu

end

namespace Token

/-- A declaration of some instruments with their types. -/
def declaration (performer : Text) (instruments : List (Text × Text)) : Token :=
  .container Keyword.performerDeclaration.spelling (some performer) (instruments.flatMap fun i =>
    [.text Keyword.instrumentId.spelling i.1, .text Keyword.instrumentType.spelling i.2])

end Token

/-- A declaration of the strings that fails. -/
def kazooToken : Token := .declaration "strings" [("first", "Viola"), ("second", "Kazoo")]

theorem refused_kazooToken : kazooToken.Refused "strings" "Kazoo" :=
  ⟨Token.isWellFormed_iff.mp (by decide +kernel), by decide +kernel, by decide +kernel⟩

/-- The strings are declared, then winds and strings in vain, and then winds. -/
def redeclared : List Token :=
  [.declaration "strings" [("first", "Violin"), ("second", "Cello"), ("first", "Viola")],
    .declaration "winds" [("first", "Kazoo")], kazooToken, .declaration "winds" []]

theorem performers_build_redeclared :
    kazooToken.Refused "strings" "Kazoo" ∧
    ∃ score, build false redeclared = .ok score ∧ score.Lists redeclared ∧
      ∃ a b, build false (redeclared.take 2) = .ok a ∧
        build false (redeclared.take 2 ++ [kazooToken]) = .ok b ∧
          a.performers.entries <+: b.performers.entries ∧
          (∀ id, b.instrumentsFor id = a.instrumentsFor id) ∧
          b.report.errors =
            a.report.errors ++ [(Finding.unknownInstrument 2 "strings" "Kazoo").issue] := by
  have hb : build false redeclared = .ok (reached redeclared).toScore :=
    build_lenient_eq_ok.mpr ⟨by decide +kernel, rfl⟩
  obtain ⟨hl, hr⟩ := performers_build hb
  exact ⟨refused_kazooToken, _, hb, hl,
    hr (redeclared.take 2) kazooToken (redeclared.drop 3) _ _ rfl refused_kazooToken⟩

end RhythmTree
