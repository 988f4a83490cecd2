import RhythmTree.Decimal.Layout
import RhythmTree.Document.Basic
import RhythmTree.Text.Quoted

/-!
# Writing JSON

JSON texts in ASCII: every other character is escaped by its code units in base sixteen. On one
line there is a blank after each separator; with a filler every item and every closing
bracket has a line of its own, and only a colon is followed by a blank. Empty lists and records are
two brackets in either form. Pairs are written as lists. JSON has no moments, octets or sets, nor
collections inside of themselves; a document that holds one of these should not be written.
-/

namespace RhythmTree.Document.Json

/-- A code unit as an escape. -/
def unitEscape (unit : Nat) : List Char := '\\' :: 'u' :: Text.hexDigits 4 unit

/-- A character of a text. -/
def escapedChar (c : Char) : List Char :=
  let n := c.toNat
  if c = '"' || c = '\\' then ['\\', c]
  else if c = '\n' then ['\\', 'n']
  else if c = '\r' then ['\\', 'r']
  else if c = '\t' then ['\\', 't']
  else if c = '\x08' then ['\\', 'b']
  else if c = '\x0c' then ['\\', 'f']
  else if 0x20 ≤ n && n < 0x7F then [c]
  else if n < 0x10000 then unitEscape n
  else unitEscape (0xD800 + (n - 0x10000) / 0x400) ++ unitEscape (0xDC00 + (n - 0x10000) % 0x400)

/-- A symbol of a text. -/
def escapedSymbol : Text.Symbol → List Char
  | .char c => escapedChar c
  | .half number => unitEscape (Text.Symbol.half number).code

/-- A text between double quotes. -/
def quoted (t : Text) : List Char := '"' :: t.symbols.flatMap escapedSymbol ++ ['"']

/-- A name between double quotes. -/
def quotedName : Name → List Char
  | .text t => quoted t
  | .moment m => quoted m.text
  | .octets value => quoted (.ofChars (value.map fun octet => Char.ofNat octet.toNat))

/-- How the lists and records of a text are set out. -/
inductive Style
  /-- All on one line. -/
  | line
  /-- One item a line, each level moved in by a filler. -/
  | indented (filler : List Char)
  deriving DecidableEq, Repr

/-- One item a line, each level moved in by some blanks. -/
def Style.blanks (width : Nat) : Style := .indented (List.replicate width ' ')

/-- The style that a value asks for: nothing for one line, a number of blanks or the filler itself.
The type of any other value is the error. -/
def Style.ofDocument : Document → Except String Style
  | .null => .ok .line
  | .bool b => .ok (.blanks (if b then 1 else 0))
  | .int n => .ok (.blanks n.toNat)
  | .text t => .ok (.indented t.display.toList)
  | d => .error d.typeName

/-- The message about a value that asks for no style. -/
def Style.unfitMessage (typeName : String) : String :=
  "can't multiply sequence by non-int of type '" ++ typeName ++ "'"

/-- What stands between a bracket and the items beside it. -/
def Style.edge (style : Style) (level : Nat) : List Char :=
  match style with
  | .line => []
  | .indented filler => '\n' :: (List.replicate level filler).flatten

/-- What stands between two items. -/
def Style.separator (style : Style) (level : Nat) : List Char :=
  match style with
  | .line => [',', ' ']
  | .indented _ => ',' :: style.edge level

mutual

/-- A value at a level of nesting. -/
def write (style : Style) (level : Nat) : Document → List Char
  | .null => "null".toList
  | .bool true => "true".toList
  | .bool false => "false".toList
  | .int n => (toString n).toList
  | .float x => (Decimal.Layout.json.text x).toList
  | .text t => quoted t
  | .moment m => quoted m.text
  | .octets value => quoted (.ofChars (value.map fun octet => Char.ofNat octet.toNat))
  | .pair first second =>
    '[' :: style.edge (level + 1) ++ write style (level + 1) first ++
      style.separator (level + 1) ++ write style (level + 1) second ++ style.edge level ++ [']']
  | .ancestor _ => "null".toList
  | .set [] | .list [] => ['[', ']']
  | .set (item :: rest)
  | .list (item :: rest) =>
    '[' :: style.edge (level + 1) ++ write style (level + 1) item ++
      writeItems style (level + 1) rest ++ style.edge level ++ [']']
  | .record [] => ['\x7b', '\x7d']
  | .record ((name, value) :: rest) =>
    '\x7b' :: style.edge (level + 1) ++ quotedName name ++ ':' :: ' ' ::
      write style (level + 1) value ++ writeFields style (level + 1) rest ++ style.edge level ++
      ['\x7d']

/-- The items of a list after the first. -/
def writeItems (style : Style) (level : Nat) : List Document → List Char
  | [] => []
  | item :: rest => style.separator level ++ write style level item ++ writeItems style level rest

/-- The fields of a record after the first. -/
def writeFields (style : Style) (level : Nat) : List (Name × Document) → List Char
  | [] => []
  | (name, value) :: rest =>
    style.separator level ++ quotedName name ++ ':' :: ' ' :: write style level value ++
      writeFields style level rest

end

/-- What keeps a document from being written as JSON. -/
inductive Obstacle
  /-- A value of a type that JSON does not have. -/
  | value (typeName : String)
  /-- A name of a type that names in JSON do not have. -/
  | name (typeName : String)
  /-- A collection inside of itself. -/
  | circle
  deriving DecidableEq, Repr

/-- The message about an obstacle. -/
def Obstacle.message : Obstacle → String
  | .value typeName => "Object of type " ++ typeName ++ " is not JSON serializable"
  | .name typeName => "keys must be str, int, float, bool or None, not " ++ typeName
  | .circle => "Circular reference detected"

/-- What keeps a name from being written. -/
def Obstacle.ofName? : Name → Option Obstacle
  | .text _ => none
  | other => some (.name other.typeName)

mutual

/-- The first obstacle in a document. -/
def obstacle? : Document → Option Obstacle
  | .moment m => some (.value m.typeName)
  | .octets value => some (.value (Document.octets value).typeName)
  | .set members => some (.value (Document.set members).typeName)
  | .ancestor _ => some .circle
  | .list items => obstacleAmong? items
  | .pair first second => obstacle? first <|> obstacle? second
  | .record fields => obstacleInFields? fields
  | _ => none

/-- The first obstacle in the items of a list. -/
def obstacleAmong? : List Document → Option Obstacle
  | [] => none
  | item :: rest => obstacle? item <|> obstacleAmong? rest

/-- The first obstacle in the fields of a record. -/
def obstacleInFields? : List (Name × Document) → Option Obstacle
  | [] => none
  | (name, value) :: rest =>
    Obstacle.ofName? name <|> obstacle? value <|> obstacleInFields? rest

end

/-- The JSON text of a document. -/
def print (style : Style) (d : Document) : String := String.ofList (write style 0 d)

end RhythmTree.Document.Json
