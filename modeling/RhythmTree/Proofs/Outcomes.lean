import RhythmTree.Builder.Parse
import RhythmTree.Document.Json.Reader
import RhythmTree.Proofs.Payloads

/-!
# How a parse ends

A fresh builder answers a list with a score, or it ends with an error. Three errors are meant: the
data describe no tokens, a token is malformed, and, if the builder is strict, a declaration names an
instrument type that does not exist. A fourth one gets through from a duration payload that breaks
the check off.

* `isDocumented_of_build`: a builder halts with an error that is meant.
* `parse_outcome`: **a parse ends with an error that is meant, or a payload breaks the check off.**
* `not_forall_parse_isDocumented`: **there is a JSON text that leads to another error.**
-/

namespace RhythmTree

/-- The errors that a parse is meant to end with. -/
inductive ParseError.IsDocumented (strict : Bool) : ParseError → Prop
  | invalid (problems : List Schema.Problem) : IsDocumented strict (.invalid problems)
  | malformed (index : Nat) (m : Malformation) :
      IsDocumented strict (.halted (.malformed index m))
  /-- Only a strict builder halts at a declaration. -/
  | unknownInstrument (h : strict = true) (performer typeName : Text) :
      IsDocumented strict (.halted (.unknownInstrument performer typeName))

/-! ### Builders that halt -/

section

variable {strict : Bool} {s : BuilderState} {index : Nat} {t : Token} {ts : List Token}
  {halted : Halted}

theorem isDocumented_of_step (h : s.step strict index t = .error halted) :
    (ParseError.halted halted.error).IsDocumented strict := by
  unfold BuilderState.step at h
  split at h
  · cases h
  · rw [← Except.error.inj h]
    exact .malformed _ _
  · next i _ =>
    dsimp only at h
    split at h
    · next error hr =>
      rw [← Except.error.inj h]
      cases i with
      | rejectDeclaration performer typeName =>
        obtain rfl := Option.some.inj hr
        exact .unknownInstrument rfl _ _
      | _ => cases hr
    · cases h

theorem isDocumented_of_run (h : BuilderState.run strict s index ts = .error halted) :
    (ParseError.halted halted.error).IsDocumented strict := by
  induction ts generalizing s index with
  | nil => cases h
  | cons t rest ih =>
    rw [BuilderState.run] at h
    cases hs : s.step strict index t with
    | ok s' =>
      rw [hs] at h
      exact ih h
    | error halted' =>
      rw [hs] at h
      rw [← Except.error.inj h]
      exact isDocumented_of_step hs

theorem isDocumented_of_build (h : build strict ts = .error halted) :
    (ParseError.halted halted.error).IsDocumented strict := by
  unfold build at h
  split at h
  · cases h
  · next hr =>
    rw [← Except.error.inj h]
    exact isDocumented_of_run hr

end

/-! ### Parsing a list -/

section

variable (strict : Bool) (items : List Document)

/-- The answer of a fresh builder to a list. -/
theorem parse_fresh :
    (Builder.parse { strict := strict } (.list items)).1 =
      match Schema.tokens 0 items with
      | .invalid problems => .error (.invalid problems)
      | .aborted e => .error (.aborted e)
      | .ok ts => (build strict ts).mapError fun halted => .halted halted.error := by
  unfold Builder.parse parseReporting tokensOf Document.items?
  dsimp only
  cases Schema.tokens 0 items with
  | ok ts => cases hb : build strict ts <;> simp [hb, Except.mapError]
  | _ => rfl

/-- **A parse ends with an error that is meant, or a payload breaks the check off.** If no payload
does, then whatever is no duration is a wrong value and among the problems that are reported.
Otherwise the parse ends with an error about a type or about a size. -/
theorem parse_outcome :
    ((∀ d ∈ items, ∀ v, Schema.Carries d v → ¬ Duration.BreaksOff v) →
      (∀ error, (Builder.parse { strict := strict } (.list items)).1 = .error error →
        error.IsDocumented strict) ∧
      ∀ d ∈ items, ∀ v e, Schema.Carries d v → Duration.ofDocument v = .error e →
        e.category = .value ∧
          ∃ problems, (Builder.parse { strict := strict } (.list items)).1 =
              .error (.invalid problems) ∧ ∃ p ∈ problems, p.fault = .duration e) ∧
    ∀ d ∈ items, ∀ v, Schema.Carries d v → Duration.BreaksOff v →
      ∃ e, (Builder.parse { strict := strict } (.list items)).1 = .error (.aborted e) ∧
        e.IsForeign := by
  rw [parse_fresh]
  refine ⟨fun h => ?_, fun d hd v hc hv => ?_⟩
  · have hn : ¬ (Schema.tokens 0 items).Aborts := by
      rw [Schema.aborts_tokens_iff]
      rintro ⟨d, hd, v, hc, hv⟩
      exact h d hd v hc hv
    refine ⟨fun error he => ?_, fun d hd v e hc hv => ?_⟩
    · cases ht : Schema.tokens 0 items with
      | invalid problems =>
        simp only [ht] at he
        exact Except.error.inj he ▸ .invalid problems
      | aborted e => exact absurd ⟨e, ht⟩ hn
      | ok ts =>
        simp only [ht] at he
        cases hb : build strict ts with
        | ok score =>
          rw [hb] at he
          cases he
        | error halted =>
          rw [hb] at he
          exact Except.error.inj he ▸ isDocumented_of_build hb
    · have hcat := Duration.category_of_ofDocument (h d hd v hc) hv
      have hf : (Schema.duration v).Finds (.duration e) := by
        rw [Schema.duration, hv]
        simp only [hcat]
        exact ⟨_, rfl, _, List.mem_singleton_self _, rfl⟩
      have ht : (Schema.token d).Finds (.duration e) :=
        hc.finds hf fun ha => hn (Schema.tokens_aborts hd ha 0)
      obtain ⟨problems, hp, hm⟩ := Schema.tokens_finds hd ht hn
      exact ⟨hcat, problems, by rw [hp], hm⟩
  · have ha : (Schema.tokens 0 items).Aborts :=
      Schema.aborts_tokens_iff.mpr ⟨d, hd, v, hc, hv⟩
    obtain ⟨e, he⟩ := ha
    exact ⟨e, by rw [he], Schema.isForeign_of_tokens he⟩

end

/-- A tree with a payload as its duration. -/
def rootFields (payload : Document) : Document.Fields :=
  [("kind", .text "duration"), ("identifier", .text Keyword.rootDuration.spelling),
    ("value", payload)]

/-- A bar that holds such a tree. -/
def barFields (payload : Document) : Document.Fields :=
  [("kind", .text "container"), ("identifier", .text Keyword.measure.spelling),
    ("tokens", .list [.record (rootFields payload)])]

theorem carries_barFields {payload v : Document} :
    Schema.Carries (.record (barFields payload)) v ↔ v = payload := by
  have hroot : Schema.kindOf (rootFields payload) = .ok "duration" := rfl
  have hvalue : Document.valueOf? "value" (rootFields payload) = some payload := rfl
  have hbar : Schema.kindOf (barFields payload) = .ok "container" := rfl
  have htokens : Document.valueOf? "tokens" (barFields payload) =
      some (.list [.record (rootFields payload)]) := rfl
  constructor
  · intro h
    cases h with
    | payload kind value => exact absurd (Except.ok.inj (hbar.symm.trans kind)) (by decide)
    | nested kind tokens listed mem inner =>
      obtain rfl := Option.some.inj (htokens.symm.trans tokens)
      obtain rfl := Option.some.inj listed
      obtain rfl := List.mem_singleton.mp mem
      cases inner with
      | payload kind value => exact Option.some.inj (value.symm.trans hvalue)
      | nested kind tokens listed mem inner =>
        exact absurd (Except.ok.inj (hroot.symm.trans kind)) (by decide)
  · rintro rfl
    exact .nested hbar htokens rfl (List.mem_singleton_self _) (.payload hroot hvalue)

/-- One over zero is a problem that is reported; nothing over one is not. -/
theorem parse_outcome_nestedPayload :
    (¬ Duration.BreaksOff (.list [.int 1, .int 0]) ∧
      ∃ problems, (Builder.parse { strict := true }
          (.list [.record (barFields (.list [.int 1, .int 0]))])).1 = .error (.invalid problems) ∧
        ∃ p ∈ problems, p.fault = .duration (.malformed (.list [.int 1, .int 0]))) ∧
    Duration.BreaksOff (.list [.null, .int 1]) ∧
      ∃ e, (Builder.parse { strict := true }
          (.list [.record (barFields (.list [.null, .int 1]))])).1 = .error (.aborted e) ∧
        e.IsForeign := by
  have hn : ¬ Duration.BreaksOff (.list [.int 1, .int 0]) := by
    rintro ⟨_, _, hh, h⟩
    cases hh
    rcases h with h | ⟨h, -⟩ <;> cases h
  have hb : Duration.BreaksOff (.list [.null, .int 1]) :=
    ⟨_, _, rfl, .inr ⟨trivial, 1, rfl, by decide⟩⟩
  refine ⟨⟨hn, ?_⟩, hb, ?_⟩
  · have h := (parse_outcome true [.record (barFields (.list [.int 1, .int 0]))]).1 ?_
    · exact (h.2 _ (List.mem_singleton_self _) _ _ (carries_barFields.mpr rfl) rfl).2
    · intro d hd v hc
      obtain rfl := List.mem_singleton.mp hd
      obtain rfl := carries_barFields.mp hc
      exact hn
  · exact (parse_outcome true _).2 _ (List.mem_singleton_self _) _ (carries_barFields.mpr rfl) hb

/-- A tree with nothing over one as its duration. -/
def halfNothing : Text :=
  "[\x7b\"kind\":\"duration\",\"identifier\":\"RootNodeDuration\",\"value\":[null,1]\x7d]"

/-- **Not every parse of a JSON text ends with an error that is meant.** -/
theorem not_forall_parse_isDocumented :
    ¬ ∀ (strict : Bool) (json : Text) (items : List Document),
      Document.Json.read? json = some (.list items) → ∀ error,
        (Builder.parse { strict := strict } (.list items)).1 = .error error →
          error.IsDocumented strict := by
  intro h
  have hr : Document.Json.read? halfNothing =
      some (.list [.record [("kind", .text "duration"), ("identifier", .text "RootNodeDuration"),
        ("value", .list [.null, .int 1])]]) := rfl
  cases h false halfNothing _ hr (.aborted (.typeAsInteger "NoneType")) rfl

end RhythmTree
