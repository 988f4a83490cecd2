import RhythmTree.Builder.Parse
import RhythmTree.Document.Json.Printer
import RhythmTree.Library.Basic

/-!
# Services

What clients may ask for, with answers as records. An answer has the status `success` beside the
data asked for, or the status `error` beside a message. Answers are sent as JSON, so data that JSON
cannot hold is not sent.
-/

namespace RhythmTree.Service

/-- The answer with an error message. -/
def failure (message : Text) : Document :=
  .record [("status", .text "error"), ("message", .text message)]

/-- The answer with some data. -/
def success (fields : Document.Fields) : Document :=
  .record (("status", .text "success") :: fields)

/-- An answer with some data that files may have brought in. -/
def sent (fields : Document.Fields) : Document :=
  match Document.Json.obstacle? (.record fields) with
  | some obstacle => failure obstacle.message
  | none => success fields

/-- The closing message about a score. -/
def parsedMessage (score : Score) : String :=
  "Parsed " ++ toString score.forest.length ++ " rhythm trees across " ++
    toString score.measures.length ++ " measures."

/-- The data of a score, with or without its trees. -/
def scoreFields (trees : Bool) (score : Score) : Document.Fields :=
  let shown : Document.Fields := [("summary", score.summary),
    ("measures", .list (score.measures.map Measure.toDocument)),
    ("diagnostics", score.report.toDocument),
    ("message", .text (parsedMessage score))]
  let hidden : Document.Fields := [("duration_nodes", .list (Tree.toDocuments score.forest))]
  if trees then shown ++ hidden else shown

/-- The message about a text that is not JSON. -/
def notJsonMessage : String := "Invalid token stream: not a JSON text"

/-- The message about a stream without a score: errors in the tokens are announced as such. -/
def parseMessage : ParseError → String
  | .invalid problems => "Invalid token stream: " ++ (ParseError.invalid problems).message
  | .halted error => "Invalid token stream: " ++ error.message
  | error => error.message

/-- The message about a value in the place of a JSON text. -/
def notTextMessage (typeName : String) : String :=
  "the JSON object must be str, bytes or bytearray, not " ++ typeName

/-- The score of the tokens in a JSON text. -/
def parseTokens (trees strict : Bool) : Document → Document
  | .text json =>
    match Document.Json.read? json with
    | none => failure notJsonMessage
    | some raw =>
      match parse strict raw with
      | .ok score => success (scoreFields trees score)
      | .error error => failure (parseMessage error)
  | other => failure (notTextMessage other.typeName)

/-- The score of a stream. -/
def streamScore (trees strict : Bool) (s : NamedStream) : Document :=
  match build strict s.tokens with
  | .ok score => sent (scoreFields trees score ++ [Document.field "stream" s.name])
  | .error halted => failure halted.error.message

/-- The message about a stream that there is not. -/
def notFoundMessage (name : Document) : Text :=
  Text.ofString "Token stream '" ++ name.unquoted ++ Text.ofString "' not found."

/-- The score of the stream of a name, and the library that remembers the stream. -/
def parseStream (trees strict : Bool) (files : FileTree) (l : Library) (name : Document) :
    Document × Library :=
  match l.get files name with
  | (.ok (some s), after) => (streamScore trees strict s, after)
  | (.ok none, after) => (failure (notFoundMessage name), after)
  | (.error error, after) => (failure error.message, after)

/-- The entry of a list of streams as a record. -/
def listingDocument (l : Listing) : Document :=
  .record [("name", l.name), ("description", l.description), ("token_count", .count l.count)]

/-- The list of the streams of a library. -/
def listStreams (files : FileTree) (l : Library) : Document :=
  match l.list files with
  | .ok entries =>
    sent [("streams", .list (entries.map listingDocument)), ("count", .count entries.length)]
  | .error error => failure error.message

/-- Why two ends are no span. -/
inductive SpanError
  /-- One of the ends is no duration. -/
  | duration (error : Duration.Error)
  /-- The start is after the end. -/
  | backward (start stop : Duration)

/-- The message of an error. -/
def SpanError.message : SpanError → String
  | .duration error => error.message
  | .backward start stop => backwardSpanMessage start stop

/-- The span between two ends given as plain data. -/
def readSpan (start stop : Document) : Except SpanError Span := do
  let start ← (Duration.ofDocument start).mapError .duration
  let stop ← (Duration.ofDocument stop).mapError .duration
  match Span.ofEnds? start stop with
  | some span => return span
  | none => .error (.backward start stop)

/-- The spans between two pairs of ends. -/
def readSpans (aStart aStop bStart bStop : Document) : Except SpanError (Span × Span) := do
  let a ← readSpan aStart aStop
  let b ← readSpan bStart bStop
  return (a, b)

/-- How two spans touch; ends of a type that is never a duration are an error of the caller. -/
def spanRelationship (aStart aStop bStart bStop : Document) : Except Duration.Error Document :=
  match readSpans aStart aStop bStart bStop with
  | .ok (a, b) =>
    .ok (success [("a", a.toDocument), ("b", b.toDocument),
      ("relationship", .text (a.relationship b).text)])
  | .error (.backward start stop) =>
    .ok (failure ("Invalid span: " ++ backwardSpanMessage start stop))
  | .error (.duration error) =>
    if error.category = .value then .ok (failure ("Invalid span: " ++ error.message))
    else .error error

end RhythmTree.Service
