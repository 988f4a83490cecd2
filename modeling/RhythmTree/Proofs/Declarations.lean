import RhythmTree.Proofs.Layers
import RhythmTree.Proofs.Occurrences
import RhythmTree.Proofs.Tables

/-!
# Declarations

What a declaration says by itself. It is about one performer, and each instrument type in it goes to
the instrument that was named last. A type that does not exist spoils the declaration from there on.

* `Token.declared?`, `Token.unknownType?`, `assignments`: the performer of a declaration, the first
  type in it that does not exist, and the types with their instruments.
* `instruments_eq`: **reading the tokens of a declaration finds the first unknown type, or collects
  the assignments.**
* `declaration_cases`: **a well-formed declaration asks for its assignments, or it is rejected.**
* `refused_iff`: the tokens that are rejected.
-/

namespace RhythmTree

open Token

namespace Token

theorem textUnder?_of_keyword? {t : Token} {k : Keyword} (h : t.keyword? = some k) :
    t.textUnder? k = t.text? := if_pos (keyword?_eq_some_iff.mp h)

theorem textUnder?_of_ne {t : Token} {k : Keyword} (h : t.keyword? ≠ some k) :
    t.textUnder? k = none := if_neg fun hc => h (keyword?_eq_some_iff.mpr hc)

/-- The value that opens a container. -/
def opening? : Token → Option Text
  | .container _ opening _ => opening
  | _ => none

/-- The performer that a declaration is about: the one named first inside, or else the opening
value. -/
def declared? (t : Token) : Option Text :=
  if t.IsContainerOf .performerDeclaration then
    match t.nested.find? fun u => u.Carries .performerId with
    | some u => u.text?
    | none => t.opening?
  else none

end Token

/-- The first name among some tokens that names no instrument type. -/
def firstUnknown? (ts : List Token) : Option Text :=
  (ts.filterMap (textUnder? .instrumentType)).find? fun name => Instrument.ofText? name = none

/-- The first name inside a token that names no instrument type. -/
def Token.unknownType? (t : Token) : Option Text := firstUnknown? t.nested

/-- An instrument type goes to the instrument that was named last, if there is one. -/
def Occurrence.assignment? (o : Occurrence) : Option (Text × Instrument) :=
  (latest .instrumentId o.before).bind fun id =>
    ((o.token.textUnder? .instrumentType).bind Instrument.ofText?).map fun kind => (id, kind)

/-- The instrument types among some tokens, each with its instrument. -/
def assignments (ts : List Token) : List (Text × Instrument) :=
  (occurrences ts).filterMap Occurrence.assignment?

/-- A declaration that can be read and names an instrument type that does not exist. -/
def Token.Refused (t : Token) (performer typeName : Text) : Prop :=
  ¬ t.Malformed ∧ t.declared? = some performer ∧ t.unknownType? = some typeName

/-! ### Inside a declaration -/

theorem firstUnknown?_cons_of_none {t : Token} (h : t.textUnder? .instrumentType = none)
    (ts : List Token) : firstUnknown? (t :: ts) = firstUnknown? ts := by
  rw [firstUnknown?, List.filterMap_cons_none h, firstUnknown?]

theorem firstUnknown?_cons_of_some {t : Token} {name : Text}
    (h : t.textUnder? .instrumentType = some name) (ts : List Token) :
    firstUnknown? (t :: ts) =
      if Instrument.ofText? name = none then some name else firstUnknown? ts := by
  rw [firstUnknown?, List.filterMap_cons_some h, List.find?_cons, firstUnknown?]
  by_cases hn : Instrument.ofText? name = none <;> simp [hn]

theorem Occurrence.assignment?_of_none {before : List Token} {t : Token}
    (h : t.textUnder? .instrumentType = none) : assignment? ⟨before, t⟩ = none := by
  simp [assignment?, h]

namespace Reading

/-- **The tokens of a declaration are read up to the first unknown type, or all of them are, and
each type is stored under the instrument that was named last.** -/
theorem instruments_eq {ts : List Token} (h : ¬ Spoiled ts) (before : List Token)
    (table : Table Text Instrument) :
    instruments (latest .instrumentId before) table ts =
      match firstUnknown? ts with
      | some name => .error (.inr name)
      | none => .ok (((occurrencesFrom before ts).filterMap Occurrence.assignment?).foldl
          (fun table pair => table.put pair.1 pair.2) table) := by
  induction ts generalizing before table with
  | nil => rfl
  | cons t rest ih =>
    rw [spoiled_cons, not_or, not_and, not_and, not_not] at h
    obtain ⟨ht, hr⟩ := h
    simp only [← keyword?_eq_some_iff] at ht
    rw [instruments, occurrencesFrom]
    split
    · -- an instrument is named: it is the latest one from here on
      next hk =>
      obtain ⟨i, id, rfl, hp⟩ := (textPayload_cases t).resolve_right fun hn => hn.1 (ht (.inl hk))
      have hty : (Token.text i id).textUnder? .instrumentType = none :=
        textUnder?_of_ne (by rw [hk]; decide)
      have hl : latest .instrumentId (before ++ [.text i id]) = some id := by
        rw [latest_concat, textUnder?_of_keyword? hk]
        rfl
      have hn : ¬ (Token.text i id).NamesUnknown := by
        rintro ⟨hc, -⟩
        rw [← keyword?_eq_some_iff, hk] at hc
        cases hc
      rw [hp, firstUnknown?_cons_of_none hty,
        List.filterMap_cons_none (Occurrence.assignment?_of_none hty), ← ih (hr hn), hl]
    · -- a type goes to the latest instrument, unless it is unknown
      next hk =>
      obtain ⟨i, name, rfl, hp⟩ :=
        (textPayload_cases t).resolve_right fun hn => hn.1 (ht (.inr hk))
      have hty : (Token.text i name).textUnder? .instrumentType = some name :=
        textUnder?_of_keyword? hk
      have hl : latest .instrumentId (before ++ [.text i name]) = latest .instrumentId before := by
        rw [latest_concat, textUnder?_of_ne (by rw [hk]; decide)]
        rfl
      rw [hp, firstUnknown?_cons_of_some hty]
      dsimp only
      cases hv : Instrument.ofText? name with
      | none => rfl
      | some kind =>
        have hn : ¬ (Token.text i name).NamesUnknown := by
          rintro ⟨-, _, _, he, hu⟩
          cases he
          rw [hv] at hu
          cases hu
        have hi := ih (hr hn) (before ++ [.text i name])
        rw [hl] at hi
        show instruments (latest .instrumentId before) _ rest = _
        rw [if_neg (Option.some_ne_none kind), hi]
        cases hc : latest .instrumentId before with
        | none =>
          have ha : Occurrence.assignment? ⟨before, .text i name⟩ = none := by
            simp [Occurrence.assignment?, hc]
          rw [List.filterMap_cons_none ha]
          rfl
        | some id =>
          have ha : Occurrence.assignment? ⟨before, .text i name⟩ = some (id, kind) := by
            simp [Occurrence.assignment?, hc, hty, hv]
          rw [List.filterMap_cons_some ha]
          rfl
    · next hi hk =>
      have hty : t.textUnder? .instrumentType = none := textUnder?_of_ne hk
      have hl : latest .instrumentId (before ++ [t]) = latest .instrumentId before := by
        rw [latest_concat, textUnder?_of_ne hi]
        rfl
      have hn : ¬ t.NamesUnknown := fun hn => hk (keyword?_eq_some_iff.mpr hn.1)
      rw [firstUnknown?_cons_of_none hty,
        List.filterMap_cons_none (Occurrence.assignment?_of_none hty), ← ih (hr hn), hl]

theorem ofInstruments_eq {ts : List Token} (h : ¬ Spoiled ts) (performer : Text) :
    ofInstruments performer ts =
      match firstUnknown? ts with
      | some name => .instruct (.rejectDeclaration performer name)
      | none => .instruct (.declare performer (.ofList (assignments ts))) := by
  have hi : instruments none .empty ts = _ := instruments_eq h [] .empty
  rw [ofInstruments, hi]
  cases firstUnknown? ts <;> rfl

theorem performer_eq (opening : Option Text) (ts : List Token) :
    performer opening ts =
      match ts.find? fun u => u.Carries .performerId with
      | some u => u.textPayload.map some
      | none => .ok opening := by
  have hf : (fun u : Token => decide (u.keyword? = some .performerId)) =
      fun u => decide (u.Carries .performerId) := by
    funext u
    exact decide_eq_decide.mpr keyword?_eq_some_iff
  unfold performer
  exact hf ▸ rfl

end Reading

namespace Token

variable {t : Token}

theorem exists_declared? (hw : t.isWellFormed = true) (h : t.IsContainerOf .performerDeclaration) :
    ∃ performer, t.declared? = some performer ∧ ¬ Spoiled t.nested ∧
      Reading.ofToken t = Reading.ofInstruments performer t.nested := by
  have hm : ¬ (Reading.ofToken t).IsMalformed := by
    rw [Reading.isMalformed_ofToken]
    exact isWellFormed_iff.mp hw
  rw [declared?, if_pos h]
  obtain ⟨hc, hk⟩ := h
  cases t with
  | container i opening ts =>
    rw [Reading.ofToken_of_container hk, Reading.ofContainer] at hm ⊢
    -- the performer of the reading is the one that the token declares
    have hwho : ∀ who, Reading.performer opening ts = .ok who →
        ∃ performer, who = some performer ∧ ¬ Spoiled ts ∧
          Reading.ofDeclaration i.display opening ts = Reading.ofInstruments performer ts := by
      intro who hp
      rw [Reading.isMalformed_ofDeclaration_of_ok hp, not_or, not_or] at hm
      obtain ⟨performer, rfl⟩ := Option.ne_none_iff_exists'.mp hm.1.1
      refine ⟨performer, rfl, hm.2, ?_⟩
      rw [Reading.ofDeclaration, hp]
      exact if_neg fun he => hm.1.2 (congrArg some he)
    have hp := Reading.performer_eq opening ts
    show ∃ performer, (match ts.find? fun u => u.Carries .performerId with
      | some u => u.text?
      | none => opening) = some performer ∧ _
    cases hf : ts.find? fun u => u.Carries .performerId with
    | none =>
      rw [hf] at hp
      exact hwho opening hp
    | some u =>
      rw [hf] at hp
      change Reading.performer opening ts = u.textPayload.map some at hp
      rcases textPayload_cases u with ⟨j, id, rfl, ht⟩ | ⟨-, m, ht⟩
      · rw [ht] at hp
        exact hwho (some id) hp
      · rw [ht] at hp
        refine absurd ?_ hm
        rw [Reading.ofDeclaration, hp]
        exact Reading.isMalformed_malformed _ _
  | _ => cases hc

/-- **A well-formed declaration asks for its assignments, or it is rejected for the first type that
does not exist.** -/
theorem declaration_cases (hw : t.isWellFormed = true) (h : t.IsContainerOf .performerDeclaration) :
    ∃ performer, t.declared? = some performer ∧
      ((∃ name, t.unknownType? = some name ∧
          t.instruction? = some (.rejectDeclaration performer name)) ∨
        (t.unknownType? = none ∧
          t.instruction? = some (.declare performer (.ofList (assignments t.nested))))) := by
  obtain ⟨performer, hp, hs, hr⟩ := exists_declared? hw h
  rw [Reading.ofInstruments_eq hs] at hr
  refine ⟨performer, hp, ?_⟩
  rw [instruction?, hr, unknownType?]
  cases firstUnknown? t.nested with
  | some name => exact .inl ⟨name, rfl, rfl⟩
  | none => exact .inr ⟨rfl, rfl⟩

theorem declared?_eq_none (h : ¬ t.IsContainerOf .performerDeclaration) : t.declared? = none :=
  if_neg h

theorem isContainerOf_of_declared? {performer : Text} (h : t.declared? = some performer) :
    t.IsContainerOf .performerDeclaration := by
  by_contra hn
  rw [declared?_eq_none hn] at h
  cases h

/-- **A token is refused exactly if it asks for a rejection.** -/
theorem refused_iff {performer typeName : Text} : t.Refused performer typeName ↔
    t.instruction? = some (.rejectDeclaration performer typeName) := by
  constructor
  · rintro ⟨hm, hd, hu⟩
    obtain ⟨p, hp, h⟩ := declaration_cases (isWellFormed_iff.mpr hm) (isContainerOf_of_declared? hd)
    obtain rfl := Option.some.inj (hp.symm.trans hd)
    rcases h with ⟨name, hn, hi⟩ | ⟨hn, -⟩
    · rwa [Option.some.inj (hu.symm.trans hn)]
    · rw [hn] at hu
      cases hu
  · intro hi
    have hw : t.isWellFormed = true := by
      rw [isWellFormed, ofToken_of_instruction? hi]
    obtain ⟨p, hp, h⟩ := declaration_cases hw (isContainerOf_of_isDeclaration hi rfl)
    refine ⟨isWellFormed_iff.mp hw, ?_⟩
    rcases h with ⟨name, hn, hi'⟩ | ⟨-, hi'⟩
    · obtain ⟨rfl, rfl⟩ := Instruction.rejectDeclaration.inj (Option.some.inj (hi.symm.trans hi'))
      exact ⟨hp, hn⟩
    · cases hi.symm.trans hi'

end Token

end RhythmTree
