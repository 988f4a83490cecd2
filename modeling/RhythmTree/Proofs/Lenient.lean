import Mathlib.Data.List.Induction
import RhythmTree.Builder.Run

/-!
# Lenient runs

Whether a token halts a lenient builder depends on the token alone. So a lenient run is a check of
every token by itself together with a fold that cannot fail, and facts about it are facts about the
fold.

* `Token.instruction?`, `Token.isWellFormed`: what a token asks for, and that it does not halt a
  lenient builder.
* `BuilderState.after`: one step of the fold. `reached ts` is the state behind the tokens `ts`.
* `run_lenient_eq_ok`, `build_lenient_eq_ok`: **a lenient run succeeds exactly on well-formed
  tokens**, and then it ends in the state of the fold.
* `build_lenient_of_build`: a stream that parses strictly parses leniently, to the same score.
* `reached_concat`: one more token is one more step, so that invariants go by induction from the
  end of the stream.
-/

namespace RhythmTree

/-! ### Tokens by themselves -/

namespace Token

/-- What a token asks for, if it is well-formed and its identifier means something. -/
def instruction? (t : Token) : Option Instruction :=
  match Reading.ofToken t with
  | .instruct instruction => some instruction
  | _ => none

/-- A token that does not halt a lenient builder. -/
def isWellFormed (t : Token) : Bool :=
  match Reading.ofToken t with
  | .malformed _ _ => false
  | _ => true

theorem ofToken_of_instruction? {t : Token} {i : Instruction} (h : t.instruction? = some i) :
    Reading.ofToken t = .instruct i := by
  unfold instruction? at h
  split at h
  · next instruction hr => rw [hr, Option.some.inj h]
  · exact absurd h (by simp)

end Token

/-! ### The fold -/

namespace BuilderState

/-- The state after one more token. A malformed token changes nothing. -/
def after (s : BuilderState) (index : Nat) (t : Token) : BuilderState :=
  match Reading.ofToken t with
  | .unrecognized => s.record (.unrecognized index t.kind t.identifier)
  | .malformed _ _ => s
  | .instruct instruction => s.perform index t.name instruction

/-- The state after some more tokens, the first of which has a given number. -/
def afterAll (s : BuilderState) (index : Nat) : List Token → BuilderState
  | [] => s
  | t :: rest => (s.after index t).afterAll (index + 1) rest

theorem after_of_instruction? {t : Token} {i : Instruction} (h : t.instruction? = some i)
    (s : BuilderState) (index : Nat) : s.after index t = s.perform index t.name i := by
  rw [after, Token.ofToken_of_instruction? h]

/-- A token that asks for nothing is recorded, or it is malformed. -/
theorem after_of_instruction?_eq_none {t : Token} (h : t.instruction? = none) (s : BuilderState)
    (index : Nat) : s.after index t = s ∨
      s.after index t = s.record (.unrecognized index t.kind t.identifier) := by
  unfold Token.instruction? at h
  unfold after
  split at h
  · exact absurd h (by simp)
  · next hr =>
    split
    · exact Or.inr rfl
    · exact Or.inl rfl
    · next i hi => exact absurd hi (hr i)

theorem afterAll_append (ts us : List Token) (s : BuilderState) (index : Nat) :
    s.afterAll index (ts ++ us) = (s.afterAll index ts).afterAll (index + ts.length) us := by
  induction ts generalizing s index with
  | nil => rfl
  | cons t rest ih =>
    rw [List.cons_append, afterAll, afterAll, ih, List.length_cons,
      show index + 1 + rest.length = index + (rest.length + 1) by omega]

/-- The state behind the tokens of a stream. -/
def reached (ts : List Token) : BuilderState := ({} : BuilderState).afterAll 0 ts

theorem reached_append (ts us : List Token) :
    reached (ts ++ us) = (reached ts).afterAll ts.length us := by
  rw [reached, afterAll_append, Nat.zero_add]
  rfl

/-- One more token is one more step. -/
theorem reached_concat (ts : List Token) (t : Token) :
    reached (ts ++ [t]) = (reached ts).after ts.length t :=
  reached_append ts [t]

/-! ### Success -/

theorem step_lenient_eq_ok {s s' : BuilderState} {index : Nat} {t : Token} :
    s.step false index t = .ok s' ↔ t.isWellFormed = true ∧ s.after index t = s' := by
  unfold step after Token.isWellFormed
  cases Reading.ofToken t with
  | unrecognized => simp
  | malformed before malformation => simp
  | instruct i => cases hi : i.rejection? <;> simp [hi]

/-- **A lenient run succeeds exactly on well-formed tokens.** -/
theorem run_lenient_eq_ok {s s' : BuilderState} {index : Nat} {ts : List Token} :
    run false s index ts = .ok s' ↔
      (∀ t ∈ ts, t.isWellFormed = true) ∧ s.afterAll index ts = s' := by
  induction ts generalizing s index with
  | nil => simp [run, afterAll]
  | cons t rest ih =>
    rw [run, afterAll, List.forall_mem_cons]
    cases hs : s.step false index t with
    | ok middle =>
      obtain ⟨hw, rfl⟩ := step_lenient_eq_ok.mp hs
      simp only [ih, hw, true_and]
    | error halted =>
      have hw : ¬ t.isWellFormed = true := by
        intro hw
        rw [step_lenient_eq_ok.mpr ⟨hw, rfl⟩] at hs
        cases hs
      simp [hw]

end BuilderState

open BuilderState

/-- **A stream parses leniently exactly if every token is well-formed.** -/
theorem build_lenient_eq_ok {ts : List Token} {score : Score} :
    build false ts = .ok score ↔
      (∀ t ∈ ts, t.isWellFormed = true) ∧ (reached ts).toScore = score := by
  unfold build
  cases h : run false {} 0 ts with
  | ok s =>
    obtain ⟨hw, rfl⟩ := run_lenient_eq_ok.mp h
    simp only [Except.ok.injEq, reached, iff_and_self]
    exact fun _ => hw
  | error halted =>
    have hw : ¬ ∀ t ∈ ts, t.isWellFormed = true := by
      intro hw
      rw [run_lenient_eq_ok.mpr ⟨hw, rfl⟩] at h
      cases h
    simp [hw]

/-! ### Strict runs -/

namespace BuilderState

/-- A strict builder that goes on does what a lenient one does. -/
theorem step_lenient_of_step {strict : Bool} {s s' : BuilderState} {index : Nat} {t : Token}
    (h : s.step strict index t = .ok s') : s.step false index t = .ok s' := by
  cases strict with
  | false => exact h
  | true =>
    unfold step at h ⊢
    cases hr : Reading.ofToken t with
    | unrecognized => simpa [hr] using h
    | malformed before malformation => simp [hr] at h
    | instruct i => cases hi : i.rejection? <;> simp_all

theorem run_lenient_of_run {strict : Bool} {s s' : BuilderState} {index : Nat} {ts : List Token}
    (h : run strict s index ts = .ok s') : run false s index ts = .ok s' := by
  induction ts generalizing s index with
  | nil => exact h
  | cons t rest ih =>
    rw [run] at h ⊢
    cases hs : s.step strict index t with
    | ok middle =>
      rw [hs] at h
      rw [step_lenient_of_step hs]
      exact ih h
    | error halted =>
      rw [hs] at h
      cases h

end BuilderState

/-- **A stream that parses strictly parses leniently, to the same score.** -/
theorem build_lenient_of_build {strict : Bool} {ts : List Token} {score : Score}
    (h : build strict ts = .ok score) : build false ts = .ok score := by
  unfold build at h ⊢
  cases hr : run strict {} 0 ts with
  | ok s =>
    rw [hr] at h
    rw [run_lenient_of_run hr]
    exact h
  | error halted =>
    rw [hr] at h
    cases h

end RhythmTree
