import RhythmTree.Builder.State

/-!
# Building a score

A builder takes the tokens of a stream from left to right. A malformed token halts it, and so does,
in strict mode, a declaration with an instrument type that does not exist. A builder that has
halted leaves the findings that it had recorded by then.
-/

namespace RhythmTree

/-- Why a builder halted. -/
inductive BuildError
  /-- The token with a number is malformed. -/
  | malformed (index : Nat) (malformation : Malformation)
  /-- A declaration names an instrument type that does not exist. -/
  | unknownInstrument (performer typeName : Text)
  deriving DecidableEq, Repr

/-- The message of an error. -/
def BuildError.message : BuildError → String
  | .malformed index malformation =>
    "Malformed " ++ malformation.identifier ++ " token at " ++ tokenPlace index ++ ": " ++
      malformation.flaw.message
  | .unknownInstrument performer typeName => unknownInstrumentMessage performer typeName

/-- What a builder that has halted leaves behind. -/
structure Halted where
  /-- Why it halted. -/
  error : BuildError
  /-- What it had found by then. -/
  findings : List Finding

/-- The error with which an instruction halts a strict builder. -/
def Instruction.rejection? : Instruction → Option BuildError
  | .rejectDeclaration performer typeName => some (.unknownInstrument performer typeName)
  | _ => none

namespace BuilderState

/-- The state after one more token, or what is left behind if the token halts the builder. -/
def step (strict : Bool) (s : BuilderState) (index : Nat) (t : Token) :
    Except Halted BuilderState :=
  match Reading.ofToken t with
  | .unrecognized => .ok (s.record (.unrecognized index t.kind t.identifier))
  | .malformed before malformation =>
    .error ⟨.malformed index malformation, (s.attach index t.name before).findings⟩
  | .instruct instruction =>
    let after := s.perform index t.name instruction
    match instruction.rejection?, strict with
    | some error, true => .error ⟨error, after.findings⟩
    | _, _ => .ok after

/-- The state after some tokens, the first of which has a given number. -/
def run (strict : Bool) (s : BuilderState) (index : Nat) : List Token → Except Halted BuilderState
  | [] => .ok s
  | t :: rest =>
    match s.step strict index t with
    | .ok after => run strict after (index + 1) rest
    | .error halted => .error halted

end BuilderState

/-- The score of a stream. -/
def build (strict : Bool) (tokens : List Token) : Except Halted Score :=
  match BuilderState.run strict {} 0 tokens with
  | .ok s => .ok s.toScore
  | .error halted => .error halted

end RhythmTree
