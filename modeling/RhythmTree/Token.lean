import RhythmTree.Document.Basic
import RhythmTree.Duration.Basic

/-!
# Tokens

The items of a token stream. An atomic token carries one payload under an identifier; a container
carries more tokens. A whole number may come with the level of indentation at which it was
written, counted from one.
-/

namespace RhythmTree

open Decimal (Binary64)

/-- A level of indentation, counted from one. -/
structure Level where
  /-- The number of the level. -/
  number : Nat
  /-- The outermost level is the first. -/
  one_le : 1 ≤ number
  deriving DecidableEq, Repr

namespace Level

/-- How many levels are around a level. -/
def outer (l : Level) : Nat := l.number - 1

/-- The level with a number. -/
def ofInt? (n : Int) : Option Level :=
  if h : 1 ≤ n then some ⟨n.toNat, by omega⟩ else none

end Level

/-- A token of a stream. -/
inductive Token
  /-- A text under an identifier. -/
  | text (identifier value : Text)
  /-- A whole number under an identifier, perhaps with its level of indentation. -/
  | int (identifier : Text) (value : Int) (level : Option Level)
  /-- A floating point number under an identifier. -/
  | float (identifier : Text) (value : Binary64)
  /-- A duration under an identifier. -/
  | duration (identifier : Text) (value : Duration)
  /-- Tokens under an identifier, perhaps with a value that opens them. -/
  | container (identifier : Text) (opening : Option Text) (tokens : List Token)
  deriving Repr, Inhabited

namespace Token

/-- The identifier of a token. -/
def identifier : Token → Text
  | .text identifier _ => identifier
  | .int identifier _ _ => identifier
  | .float identifier _ => identifier
  | .duration identifier _ => identifier
  | .container identifier _ _ => identifier

/-- The identifier of a token as messages show it. -/
def name (t : Token) : String := t.identifier.display

/-- The word for the kind of a token. -/
def kind : Token → String
  | .text _ _ => "string"
  | .int _ _ _ => "int"
  | .float _ _ => "float"
  | .duration _ _ => "duration"
  | .container _ _ _ => "container"

/-- A token that carries other tokens. -/
def isContainer : Token → Bool
  | .container _ _ _ => true
  | _ => false

mutual

/-- A token as a record. -/
def toDocument : Token → Document
  | .text identifier value => .record
    [("identifier", .text identifier), ("kind", .text "string"), ("value", .text value)]
  | .int identifier value level => .record
    [("identifier", .text identifier), ("kind", .text "int"), ("value", .int value),
      ("indentation_level", match level with
        | some l => .int l.number
        | none => .null)]
  | .float identifier value => .record
    [("identifier", .text identifier), ("kind", .text "float"), ("value", .float value)]
  | .duration identifier value => .record
    [("identifier", .text identifier), ("kind", .text "duration"), ("value", .text value.text)]
  | .container identifier opening tokens => .record
    [("identifier", .text identifier), ("kind", .text "container"),
      ("opening_value", match opening with
        | some value => .text value
        | none => .null),
      ("tokens", .list (toDocuments tokens))]

/-- Tokens as records. -/
def toDocuments : List Token → List Document
  | [] => []
  | token :: rest => toDocument token :: toDocuments rest

end

end Token

end RhythmTree
