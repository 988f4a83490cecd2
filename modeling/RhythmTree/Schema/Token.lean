import RhythmTree.Schema.Scalar

/-!
# Checked tokens

A token is a record that names its kind and its identifier. Atomic tokens need a value of their
kind; containers may have an opening value and nested tokens, which are checked in the same way.
The problems of a whole stream are reported together, in the order of the document.
-/

namespace RhythmTree.Schema

/-- The title of reports about token streams. -/
def streamTitle : String :=
  "list[tagged-union[TokenString,TokenInt,TokenFloat,TokenDuration,TokenContainer]]"

/-- The identifier of a token. -/
def identifier (fields : Document.Fields) : Checked Text :=
  required "identifier" text fields

/-- The check of an atomic token of a kind, for the kinds that exist. -/
def atom? (kind : String) (fields : Document.Fields) : Option (Checked Token) :=
  match kind with
  | "string" => some (.both .text (identifier fields) (required "value" text fields))
  | "int" => some <|
    .both (fun number level => .int number.1 number.2 level)
      (.both Prod.mk (identifier fields) (required "value" int fields))
      (withDefault "indentation_level" none optionalLevel fields)
  | "float" => some (.both .float (identifier fields) (required "value" float fields))
  | "duration" => some (.both .duration (identifier fields) (required "value" duration fields))
  | _ => none

mutual

/-- A token. -/
def token : Document → Checked Token
  | .record fields =>
    match kindOf fields with
    | .error fault => .fail fault
    | .ok "container" =>
      let front := Checked.both Prod.mk (identifier fields)
        (withDefault "opening_value" none optionalText fields)
      (Checked.both (fun front tokens => .container front.1 front.2 tokens) front
        ((nested fields).under (.field "tokens"))).under (.field "container")
    | .ok kind =>
      match atom? kind fields with
      | some result => result.under (.field kind)
      | none => .fail .kindUnknown
  | .ancestor true => .fail .endless
  | _ => .fail .notRecord

/-- The tokens in the field of that name, none if there is no such field. -/
def nested : Document.Fields → Checked (List Token)
  | [] => .ok []
  | (name, value) :: rest => if name = .text "tokens" then stream value else nested rest

/-- A list of tokens. -/
def stream : Document → Checked (List Token)
  | .list documents => tokens 0 documents
  | .pair first second =>
    .both (fun a b => [a, b]) ((token first).under (.index 0)) ((token second).under (.index 1))
  | .set members => tokens 0 members
  | _ => .fail .notList

/-- The items of a list of tokens, the first of which has a given number. -/
def tokens (first : Nat) : List Document → Checked (List Token)
  | [] => .ok []
  | document :: rest =>
    .both (· :: ·) ((token document).under (.index first)) (tokens (first + 1) rest)

end

end RhythmTree.Schema
