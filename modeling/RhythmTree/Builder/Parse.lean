import RhythmTree.Builder.Run
import RhythmTree.Schema.Token

/-!
# Parsing a stream

From plain data to a score: the items of the data are checked as tokens, and the tokens are built
into a score. A builder is used once. Its report holds what was found in its one stream, also when
the stream halted it; a stream that is no list of tokens leaves the report empty.
-/

namespace RhythmTree

/-- Why there is no score. -/
inductive ParseError
  /-- The data has no items. -/
  | noItems (typeName : String)
  /-- The items are no tokens. -/
  | invalid (problems : List Schema.Problem)
  /-- The check came to an end at an error about a duration. -/
  | aborted (error : Duration.Error)
  /-- A token halted the builder. -/
  | halted (error : BuildError)
  /-- The builder has parsed a stream before. -/
  | spent
  deriving Repr

/-- The message of an error. -/
def ParseError.message : ParseError → String
  | .noItems typeName => "'" ++ typeName ++ "' object is not iterable"
  | .invalid problems => Schema.heading Schema.streamTitle problems.length
  | .aborted error => error.message
  | .halted error => error.message
  | .spent => "TreeBuilder instances parse exactly one stream"

/-- The items of a collection, the names in a record, the symbols of a text or the numbers that are
octets. -/
def Document.items? : Document → Option (List Document)
  | .list documents => some documents
  | .pair first second => some [first, second]
  | .set members => some members
  | .record fields => some (fields.map fun field => field.1.document)
  | .octets value => some (value.map fun octet => .int octet.toNat)
  | .text t => some (t.symbols.map fun symbol => .text ⟨[symbol]⟩)
  | _ => none

/-- The tokens that plain data holds. -/
def tokensOf (raw : Document) : Except ParseError (List Token) :=
  match raw.items? with
  | none => .error (.noItems raw.typeName)
  | some documents =>
    match Schema.tokens 0 documents with
    | .ok tokens => .ok tokens
    | .invalid problems => .error (.invalid problems)
    | .aborted error => .error (.aborted error)

/-- The score of plain data, or the error with the report that is left. -/
def parseReporting (strict : Bool) (raw : Document) : Except (ParseError × Report) Score :=
  match tokensOf raw with
  | .error error => .error (error, {})
  | .ok tokens =>
    match build strict tokens with
    | .ok score => .ok score
    | .error halted => .error (.halted halted.error, .ofFindings halted.findings)

/-- The score of plain data. -/
def parse (strict : Bool) (raw : Document) : Except ParseError Score :=
  (parseReporting strict raw).mapError Prod.fst

/-- A builder that parses one stream. -/
structure Builder where
  /-- Declarations with instrument types that do not exist are errors. -/
  strict : Bool := false
  /-- A stream has been parsed. -/
  used : Bool := false
  /-- What has been found. -/
  report : Report := {}

namespace Builder

/-- The answer to a stream, and the builder afterwards. -/
def parse (b : Builder) (raw : Document) : Except ParseError Score × Builder :=
  if b.used then (.error .spent, b)
  else
    match parseReporting b.strict raw with
    | .ok score => (.ok score, { b with used := true, report := score.report })
    | .error (error, report) => (.error error, { b with used := true, report := report })

/-- A used builder keeps its report and parses no further stream. -/
theorem parse_of_used {b : Builder} (h : b.used = true) (raw : Document) :
    b.parse raw = (.error .spent, b) := by
  simp [parse, h]

/-- Every attempt uses a builder up. -/
theorem used_parse (b : Builder) (raw : Document) : (b.parse raw).2.used = true := by
  unfold parse
  split
  · assumption
  · split <;> rfl

end Builder

end RhythmTree
