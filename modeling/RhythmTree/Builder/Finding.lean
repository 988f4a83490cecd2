import RhythmTree.Report
import RhythmTree.Text.Quoted
import RhythmTree.Tree.Normalize

/-!
# Findings

What a builder drops, adjusts or rejects while it reads a stream, cause by cause. A finding knows
the number of the token that led to it, except for trees that cannot be divided, which are found
after the last token. Every finding becomes one issue of the report.
-/

namespace RhythmTree

/-- Something that an event needs and that is not there. -/
inductive Lack
  | leaf
  | performer
  | instrument
  deriving DecidableEq, Repr

/-- The words for what an event lacks. -/
def Lack.text : Lack → String
  | .leaf => "leaf"
  | .performer => "performer id"
  | .instrument => "instrument id"

/-- Something that did not go as the stream asked. -/
inductive Finding
  /-- A token whose identifier means nothing. -/
  | unrecognized (index : Nat) (kind : String) (identifier : Text)
  /-- The time elapsed in a measure did not suffice to step back. -/
  | clamped (index : Nat) (back elapsed : Duration)
  /-- There were fewer open nodes than the indentation closes. -/
  | underflow (index needed closed : Nat)
  /-- A node without an open node to attach it to. -/
  | noContainer (index : Nat) (identifier : String) (beats : Int)
  /-- A value of metadata without a key. -/
  | orphanValue (index : Nat) (value : Text)
  /-- An event without a leaf, a performer or an instrument. -/
  | missingContext (index : Nat) (identifier : String) (lacks : List Lack)
  /-- A declaration with an instrument type that does not exist. -/
  | unknownInstrument (index : Nat) (performer typeName : Text)
  /-- A node whose children cannot divide it. -/
  | indivisible (problem : Tree.Indivisible)
  deriving Repr

/-- The message about a declaration with an instrument type that does not exist. -/
def unknownInstrumentMessage (performer typeName : Text) : String :=
  "Invalid instrument type " ++ typeName.quote ++ " in declaration of performer " ++
    performer.quote

/-- A token as reports name it. -/
def tokenPlace (index : Nat) : String := "token[" ++ toString index ++ "]"

namespace Finding

/-- The number of the token that led to a finding. -/
def index? : Finding → Option Nat
  | .unrecognized index _ _ => some index
  | .clamped index _ _ => some index
  | .underflow index _ _ => some index
  | .noContainer index _ _ => some index
  | .orphanValue index _ => some index
  | .missingContext index _ _ => some index
  | .unknownInstrument index _ _ => some index
  | .indivisible _ => none

/-- How serious a finding is. -/
def severity : Finding → Severity
  | .unrecognized _ _ _ | .orphanValue _ _ => .info
  | .unknownInstrument _ _ _ => .error
  | _ => .warning

/-- The code of a finding. -/
def code : Finding → String
  | .unrecognized _ _ _ => "UNRECOGNIZED_IDENTIFIER"
  | .clamped _ _ _ => "NEGATIVE_ACCUMULATOR"
  | .underflow _ _ _ => "STACK_UNDERFLOW"
  | .noContainer _ _ _ => "NO_OPEN_CONTAINER"
  | .orphanValue _ _ => "ORPHAN_METADATA_VALUE"
  | .missingContext _ _ _ => "MISSING_CONTEXT"
  | .unknownInstrument _ _ _ => "INVALID_INSTRUMENT_TYPE"
  | .indivisible _ => "BEAT_WEIGHT"

/-- What a finding says. -/
def message : Finding → String
  | .unrecognized _ kind identifier =>
    "Ignored " ++ kind ++ " token " ++ identifier.quote
  | .clamped _ back elapsed =>
    "Decrement by " ++ back.text ++ " exceeds " ++ elapsed.text ++
      " elapsed in measure; clamped to zero"
  | .underflow _ needed closed =>
    "Needed to close " ++ toString needed ++ " nesting levels, only " ++ toString closed ++ " open"
  | .noContainer _ identifier beats =>
    "Dropped " ++ identifier ++ " with " ++ toString beats ++ " beats: no open container"
  | .orphanValue _ value => "Dropped metadata value " ++ value.quote ++ ": no pending key"
  | .missingContext _ identifier lacks =>
    "Dropped " ++ identifier ++ ": no current " ++ ", ".intercalate (lacks.map Lack.text)
  | .unknownInstrument _ performer typeName => unknownInstrumentMessage performer typeName
  | .indivisible problem => problem.message

/-- The issue that a finding becomes. -/
def issue (f : Finding) : Issue :=
  { severity := f.severity
    code := f.code
    message := f.message
    location := f.index?.map fun index => tokenPlace index }

end Finding

/-- The report of some findings. -/
def Report.ofFindings (findings : List Finding) : Report := ⟨findings.map Finding.issue⟩

end RhythmTree
