import RhythmTree.Builder.Run

/-!
# Journals

What a builder notes while it works, entry by entry: every token that means something, everything
that it drops, and a closing line about the whole stream.
-/

namespace RhythmTree

/-- How important an entry of a journal is. -/
inductive Importance
  | debug
  | info
  | warning
  | error
  deriving DecidableEq, Repr

/-- The word for the importance of an entry. -/
def Importance.text : Importance → String
  | .debug => "DEBUG"
  | .info => "INFO"
  | .warning => "WARNING"
  | .error => "ERROR"

/-- One entry of a journal. -/
structure Entry where
  /-- How important it is. -/
  importance : Importance
  /-- What it says. -/
  text : Text
  deriving DecidableEq, Repr

namespace Finding

/-- The text of the entry that notes a finding at the moment it is made. -/
def notice? : Finding → Option String
  | .noContainer index identifier _ =>
    some ("Dropped " ++ identifier ++ " at " ++ tokenPlace index ++ ": no open container")
  | .missingContext index identifier lacks =>
    let message := (Finding.missingContext index identifier lacks).message
    some (message ++ " (" ++ tokenPlace index ++ ")")
  | .unknownInstrument index performer typeName =>
    some ("Skipped performer declaration at " ++ tokenPlace index ++ ": " ++
      unknownInstrumentMessage performer typeName)
  | _ => none

end Finding

namespace Journal

/-- The entries about the findings after the first `known` ones. -/
def notices (known : Nat) (findings : List Finding) : List Entry :=
  (findings.drop known).filterMap fun f => f.notice?.map fun note => ⟨.warning, note⟩

/-- The entry about a token that means something. -/
def tokenEntry (index : Nat) (t : Token) : List Entry :=
  match Reading.ofToken t with
  | .unrecognized => []
  | _ => [⟨.debug, tokenPlace index ++ " " ++ t.name⟩]

/-- The entries about some tokens, the first of which has a given number. -/
def entries (strict : Bool) (s : BuilderState) (index : Nat) : List Token → List Entry
  | [] => []
  | t :: rest =>
    tokenEntry index t ++
      match s.step strict index t with
      | .ok after =>
        notices s.findings.length after.findings ++ entries strict after (index + 1) rest
      | .error halted => notices s.findings.length halted.findings

/-- The closing entry about a stream and its score. -/
def closing (tokens : Nat) (score : Score) : Entry :=
  ⟨.info, "Parsed " ++ toString tokens ++ " tokens into " ++ toString score.forest.length ++
    " rhythm trees across " ++ toString score.measures.length ++ " measures (" ++
    toString score.report.size ++ " issues)"⟩

/-- The journal of a stream. -/
def ofStream (strict : Bool) (tokens : List Token) : List Entry :=
  entries strict {} 0 tokens ++
    match build strict tokens with
    | .ok score => [closing tokens.length score]
    | .error _ => []

end Journal

end RhythmTree
