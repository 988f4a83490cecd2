import RhythmTree.Duration.Error

/-!
# Checked data

Plain data is checked against a schema as a whole: every problem is reported with the place where
it was found, in the order of the document. Two errors about durations are not problems of the
data but end the check at once, whatever else is wrong.
-/

namespace RhythmTree.Schema

/-- A step from a piece of data to a part of it. -/
inductive Step
  | index (i : Nat)
  | field (name : String)
  deriving DecidableEq, Repr

/-- What is wrong with a piece of data. -/
inductive Fault
  /-- A required field is absent. -/
  | missing
  /-- The data should be a text. -/
  | notText
  /-- The data should be a whole number and is of another type. -/
  | notInt
  /-- A text should spell a whole number. -/
  | intText
  /-- A floating point number should have no fraction. -/
  | intFraction
  /-- A floating point number is too large for a whole number. -/
  | intSize
  /-- A floating point number should be finite. -/
  | notFinite
  /-- A number is below the least admissible one. -/
  | tooSmall
  /-- The data should be a floating point number and is of another type. -/
  | notFloat
  /-- A text should spell a floating point number. -/
  | floatText
  /-- A text that should spell a number has half a pair of surrogates, or octets that should be a
  text are none. -/
  | notUnicode
  /-- The data should be a list. -/
  | notList
  /-- The data should be a record. -/
  | notRecord
  /-- A record does not name its kind. -/
  | kindMissing
  /-- A record names a kind that does not exist. -/
  | kindUnknown
  /-- A record stands inside of itself. -/
  | endless
  /-- The data denotes no duration. -/
  | duration (error : Duration.Error)
  deriving Repr

/-- The word that reports use for a fault. -/
def Fault.code : Fault → String
  | .missing => "missing"
  | .notText => "string_type"
  | .notInt => "int_type"
  | .intText => "int_parsing"
  | .intFraction => "int_from_float"
  | .intSize => "int_parsing_size"
  | .notFinite => "finite_number"
  | .tooSmall => "greater_than_equal"
  | .notFloat => "float_type"
  | .floatText => "float_parsing"
  | .notUnicode => "string_unicode"
  | .notList => "list_type"
  | .notRecord => "model_attributes_type"
  | .kindMissing => "union_tag_not_found"
  | .kindUnknown => "union_tag_invalid"
  | .endless => "recursion_loop"
  | .duration _ => "value_error"

/-- The text that reports add to the word for a fault. -/
def Fault.message? : Fault → Option String
  | .duration error => some ("Value error, " ++ error.message)
  | _ => none

/-- A fault and the place where it was found. -/
structure Problem where
  /-- The steps to the place. -/
  path : List Step
  /-- What is wrong there. -/
  fault : Fault
  deriving Repr

/-- A problem inside a part, seen from the whole. -/
def Problem.under (step : Step) (p : Problem) : Problem := { p with path := step :: p.path }

/-- The result of a check. -/
inductive Checked (α : Type)
  /-- The data describes a value. -/
  | ok (value : α)
  /-- The data has problems, in the order of the document. -/
  | invalid (problems : List Problem)
  /-- The check came to an end at an error that is no problem of the data. -/
  | aborted (error : Duration.Error)
  deriving Repr

namespace Checked

variable {α β γ : Type}

/-- A check that fails with one fault at the place itself. -/
def fail (fault : Fault) : Checked α := .invalid [⟨[], fault⟩]

/-- The result with its value changed. -/
def map (f : α → β) : Checked α → Checked β
  | .ok value => .ok (f value)
  | .invalid problems => .invalid problems
  | .aborted error => .aborted error

/-- The results of two checks, one after the other in the document. -/
def both (f : α → β → γ) : Checked α → Checked β → Checked γ
  | .aborted error, _ => .aborted error
  | _, .aborted error => .aborted error
  | .invalid ps, .invalid qs => .invalid (ps ++ qs)
  | .invalid ps, .ok _ => .invalid ps
  | .ok _, .invalid qs => .invalid qs
  | .ok a, .ok b => .ok (f a b)

/-- The result of the check of a part, seen from the whole. -/
def under (step : Step) : Checked α → Checked α
  | .invalid problems => .invalid (problems.map (·.under step))
  | result => result

end Checked

/-- The check of the items of a list, the first of which has a given number. -/
def items {α : Type} (check : Document → Checked α) (first : Nat) :
    List Document → Checked (List α)
  | [] => .ok []
  | item :: rest =>
    .both (· :: ·) ((check item).under (.index first)) (items check (first + 1) rest)

/-- The items of what counts as a list: pairs and sets do, too. -/
def listItems? : Document → Option (List Document)
  | .list documents => some documents
  | .pair first second => some [first, second]
  | .set members => some members
  | _ => none

/-- The check of a list. -/
def listOf {α : Type} (check : Document → Checked α) (d : Document) : Checked (List α) :=
  match listItems? d with
  | some documents => items check 0 documents
  | none => .fail .notList

/-- The check of a field that has to be present. -/
def required {α : Type} (name : String) (check : Document → Checked α)
    (fields : Document.Fields) : Checked α :=
  .under (.field name) <|
    match Document.valueOf? name fields with
    | some value => check value
    | none => .fail .missing

/-- The check of a field that may be absent. -/
def withDefault {α : Type} (name : String) (default : α) (check : Document → Checked α)
    (fields : Document.Fields) : Checked α :=
  .under (.field name) <|
    match Document.valueOf? name fields with
    | some value => check value
    | none => .ok default

/-- The kind that a record names. -/
def kindOf (fields : Document.Fields) : Except Fault String :=
  match Document.valueOf? "kind" fields with
  | none => .error .kindMissing
  | some (.text kind) =>
    match kind.string? with
    | some word => .ok word
    | none => .error .kindUnknown
  | some _ => .error .kindUnknown

/-- The heading of a report about a number of problems. -/
def heading (title : String) (problems : Nat) : String :=
  toString problems ++ " validation " ++ (if problems = 1 then "error" else "errors") ++ " for " ++
    title

end RhythmTree.Schema
