import RhythmTree.Builder.Journal
import RhythmTree.CommandLine.Invocation
import RhythmTree.Document.Json.Printer
import RhythmTree.Library.NamedStream

/-!
# Running the command

The command reads one stream file, builds its score and writes the score or its summary as JSON.
The journal of the builder comes first, then a line about what went wrong, or one about every issue
of the score.
-/

namespace RhythmTree.CommandLine

/-- What a run of the program comes to. -/
inductive Outcome
  /-- The program ends with an exit code, after it has written a text and a journal. -/
  | finished (code : Nat) (output : String) (journal : List Entry)
  /-- The program breaks off at an error that it does not expect. -/
  | crashed (error : StreamError)

/-- The entries that are written; those for debugging only on request. -/
def Request.shown (r : Request) (journal : List Entry) : List Entry :=
  journal.filter fun entry => r.debug || entry.importance ≠ .debug

/-- The text of a score that a request asks for. -/
def Request.output (r : Request) (score : Score) : String :=
  Document.Json.print (.blanks 2) (if r.summary then score.summary else score.toDocument) ++ "\n"

/-- The entry about a file without a score. -/
def Request.failure (r : Request) (message : Text) : Entry :=
  ⟨.error, Text.ofString "Failed to parse " ++ r.path.text ++ Text.ofString ": " ++ message⟩

/-- The entries about the issues of a score. -/
def issueEntries (score : Score) : List Entry :=
  score.report.issues.map fun issue => ⟨.warning, issue.text⟩

/-- What comes of the tokens of a file. -/
def Request.build (r : Request) (tokens : List Token) : Outcome :=
  let journal := r.shown (Journal.ofStream r.strict tokens)
  match RhythmTree.build r.strict tokens with
  | .ok score => .finished 0 (r.output score) (journal ++ issueEntries score)
  | .error halted => .finished 1 "" (journal ++ [r.failure halted.error.message])

/-- What comes of the content of the file. -/
def Request.run (r : Request) (content : Except ReadFailure (List UInt8)) : Outcome :=
  match NamedStream.ofContent r.path content with
  | .ok s => r.build s.tokens
  | .error error =>
    if error.isFatal then .crashed error else .finished 1 "" [r.failure error.message]

/-- What comes of a command line in a directory of files. -/
def run (words : List Text) (files : FileTree) : Outcome :=
  match Invocation.ofWords words with
  | .run request => request.run (files.read request.path)
  | .help => .finished 0 "" []
  | .misuse => .finished 2 "" []

end RhythmTree.CommandLine
