import RhythmTree.Document.Json.Lexeme
import RhythmTree.Table

/-!
# Reading JSON

A machine takes the lexemes of a JSON text one by one and keeps the lists and records that are
still open, the innermost first. A text holds a document when the machine ends with one value and
nothing open. Of several fields with one name the last value counts, in the place of the first.
-/

namespace RhythmTree.Document.Json

/-- A list or record that is still open, with what it holds so far in reverse. -/
inductive Frame
  | list (items : List Document)
  /-- A record that waits for the value of a field. -/
  | record (fields : List (Text × Document)) (name : Text)

/-- What the machine has read. -/
inductive Reading
  /-- A value has to follow. -/
  | value (around : List Frame)
  /-- The first item of a list or its end has to follow. -/
  | firstItem (around : List Frame)
  /-- The first name of a record or its end has to follow. -/
  | firstName (around : List Frame)
  /-- A further name of a record has to follow. -/
  | name (fields : List (Text × Document)) (around : List Frame)
  /-- The colon after a name has to follow. -/
  | colon (fields : List (Text × Document)) (name : Text) (around : List Frame)
  /-- A value is complete. -/
  | complete (value : Document) (around : List Frame)

/-- The record with some fields in reverse. -/
def closeRecord (fields : List (Text × Document)) : Document :=
  .record ((Table.ofList fields.reverse).entries.map fun (name, value) => (.text name, value))

/-- What the machine has read after the start of a value. -/
def startValue (around : List Frame) : Lexeme → Option Reading
  | .scalar value => some (.complete value around)
  | .openList => some (.firstItem around)
  | .openRecord => some (.firstName around)
  | _ => none

/-- What the machine has read after one more lexeme. -/
def step : Reading → Lexeme → Option Reading
  | .value around, lexeme => startValue around lexeme
  | .firstItem around, .closeList => some (.complete (.list []) around)
  | .firstItem around, lexeme => startValue (.list [] :: around) lexeme
  | .firstName around, .closeRecord => some (.complete (.record []) around)
  | .firstName around, .scalar (.text name) => some (.colon [] name around)
  | .name fields around, .scalar (.text name) => some (.colon fields name around)
  | .colon fields name around, .colon => some (.value (.record fields name :: around))
  | .complete value (.list items :: around), .comma =>
    some (.value (.list (value :: items) :: around))
  | .complete value (.list items :: around), .closeList =>
    some (.complete (.list (value :: items).reverse) around)
  | .complete value (.record fields name :: around), .comma =>
    some (.name ((name, value) :: fields) around)
  | .complete value (.record fields name :: around), .closeRecord =>
    some (.complete (closeRecord ((name, value) :: fields)) around)
  | _, _ => none

/-- The value that has been read when nothing is left open. -/
def finished? : Reading → Option Document
  | .complete value [] => some value
  | _ => none

/-- The document that a sequence of lexemes spells. -/
def ofLexemes? (lexemes : List Lexeme) : Option Document :=
  (lexemes.foldlM step (.value [])).bind finished?

/-- The document that a JSON text holds. -/
def read? (t : Text) : Option Document := (lex t).bind ofLexemes?

end RhythmTree.Document.Json
