import RhythmTree.Document.Basic

/-!
# Reports

What a parse dropped, adjusted or rejected: issues in the order in which they were recorded. A
report is clean when it holds nothing more than information.
-/

namespace RhythmTree

/-- How serious an issue is. -/
inductive Severity
  /-- A part of the input was rejected. -/
  | error
  /-- Something was dropped or adjusted. -/
  | warning
  /-- Nothing was lost. -/
  | info
  deriving DecidableEq, Repr

namespace Severity

/-- The word for a severity. -/
def text : Severity → String
  | .error => "error"
  | .warning => "warning"
  | .info => "info"

/-- The word for a severity in capitals. -/
def heading : Severity → String
  | .error => "ERROR"
  | .warning => "WARNING"
  | .info => "INFO"

/-- The severity that a word names. -/
def ofText? (word : String) : Option Severity :=
  [error, warning, info].find? fun s => s.text = word

end Severity

/-- One entry of a report. -/
structure Issue where
  /-- How serious it is. -/
  severity : Severity
  /-- The code of its cause. -/
  code : Text
  /-- What happened. -/
  message : Text
  /-- Where it happened. -/
  location : Option Text := none
  deriving DecidableEq, Repr

namespace Issue

/-- The location, unless it is empty. -/
def location? (i : Issue) : Option Text := i.location.filter (· ≠ Text.ofString "")

/-- An issue as a record. -/
def toDocument (i : Issue) : Document :=
  let cause : Document.Fields :=
    [("severity", .text i.severity.text), ("code", .text i.code), ("message", .text i.message)]
  match i.location? with
  | some place => .record (cause ++ [Document.field "location" (.text place)])
  | none => .record cause

/-- An issue in one line. -/
def text (i : Issue) : Text :=
  let cause : Text :=
    Text.ofString ("[" ++ i.severity.heading ++ "] ") ++ i.code ++ Text.ofString ": " ++ i.message
  match i.location? with
  | some place => cause ++ Text.ofString " at " ++ place
  | none => cause

end Issue

/-- The issues of one parse. -/
structure Report where
  /-- The issues in the order in which they were recorded. -/
  issues : List Issue := []
  deriving DecidableEq, Repr, Inhabited

namespace Report

/-- Records one more issue. -/
def add (r : Report) (i : Issue) : Report := ⟨r.issues ++ [i]⟩

/-- The issues of a severity. -/
def ofSeverity (r : Report) (s : Severity) : List Issue := r.issues.filter fun i => i.severity = s

/-- The issues that are errors. -/
def errors (r : Report) : List Issue := r.ofSeverity .error

/-- The issues that are warnings. -/
def warnings (r : Report) : List Issue := r.ofSeverity .warning

/-- Nothing was rejected or dropped. -/
def isClean (r : Report) : Bool := r.issues.all fun i => i.severity = .info

/-- The codes of the issues. -/
def codes (r : Report) : List Text := r.issues.map Issue.code

/-- The number of issues. -/
def size (r : Report) : Nat := r.issues.length

/-- A report as a list. -/
def toDocument (r : Report) : Document := .list (r.issues.map Issue.toDocument)

/-- A report with one issue a line. -/
def text (r : Report) : Text :=
  if r.issues.isEmpty then "Parse clean: no issues found"
  else ⟨[.char '\n'].intercalate (r.issues.map fun i => i.text.symbols)⟩

end Report

end RhythmTree
