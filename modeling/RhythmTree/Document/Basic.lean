import RhythmTree.Decimal.Binary64
import RhythmTree.Document.Moment
import RhythmTree.Text.Basic

/-!
# Documents

The plain data that streams, tools and reports exchange: what a JSON or YAML text holds. Whole
numbers and floating point numbers are different, and the fields of a record have an order. Moments,
octets, sets, pairs and collections that hold themselves come from YAML alone, and of these JSON can
write pairs only.
-/

namespace RhythmTree

open Decimal (Binary64)

/-- The name of a field. -/
inductive Document.Name
  | text (value : Text)
  | moment (value : Moment)
  | octets (value : List UInt8)
  deriving DecidableEq, Repr

instance : Coe Text Document.Name := ⟨.text⟩

/-- A piece of plain data. -/
inductive Document
  /-- The absence of a value. -/
  | null
  /-- A truth value. -/
  | bool (value : Bool)
  /-- A whole number of any size. -/
  | int (value : Int)
  /-- A floating point number. -/
  | float (value : Binary64)
  /-- A text. -/
  | text (value : Text)
  /-- A moment. -/
  | moment (value : Moment)
  /-- Octets that need not be a text. -/
  | octets (value : List UInt8)
  /-- Items in order. -/
  | list (items : List Document)
  /-- Two items. -/
  | pair (first second : Document)
  /-- Members without an order, none twice. -/
  | set (members : List Document)
  /-- Named fields in order, no name twice. -/
  | record (fields : List (Document.Name × Document))
  /-- One of the lists or records around, which so holds itself. -/
  | ancestor (isRecord : Bool)
  deriving Repr, Inhabited

/-- Named fields in order. -/
abbrev Document.Fields := List (Document.Name × Document)

namespace Document

/-- A field of a record. -/
def field (name : Text) (value : Document) : Name × Document := (.text name, value)

/-- A list of texts. -/
def texts (items : List Text) : Document := .list (items.map .text)

/-- A whole number that counts something. -/
def count (n : Nat) : Document := .int n

/-- The value of the field with a name. -/
def valueOf? (name : Text) (fields : Fields) : Option Document := fields.lookup (.text name)

/-- The field of a record with a name. -/
def field? (name : Text) : Document → Option Document
  | .record fields => valueOf? name fields
  | _ => none

/-- The name that messages give to the type of a value. -/
def typeName : Document → String
  | .null => "NoneType"
  | .bool _ => "bool"
  | .int _ => "int"
  | .float _ => "float"
  | .text _ => "str"
  | .moment m => "datetime." ++ m.typeName
  | .octets _ => "bytes"
  | .list _ => "list"
  | .pair _ _ => "tuple"
  | .set _ => "set"
  | .record _ => "dict"
  | .ancestor isRecord => if isRecord then "dict" else "list"

/-- A name as a value. -/
def Name.document : Name → Document
  | .text t => .text t
  | .moment m => .moment m
  | .octets value => .octets value

/-- The name that messages give to the type of a name. -/
def Name.typeName (n : Name) : String := n.document.typeName

end Document

end RhythmTree
