import RhythmTree.Decimal.Layout
import RhythmTree.Document.Basic
import RhythmTree.Text.Quoted

/-!
# Values inside messages

How a message shows a value: on one line, texts between quotes, lists between brackets and records
between braces, with a comma and a blank between items. Three dots stand for a collection inside of
itself.
-/

namespace RhythmTree.Document

/-- The text of a name inside a message. -/
def Name.inline : Name → String
  | .text t => Text.quote t
  | .moment m => m.text
  | .octets value => Text.quoteOctets value

mutual

/-- The text of a value inside a message. -/
def inline : Document → String
  | .null => "None"
  | .bool true => "True"
  | .bool false => "False"
  | .int n => toString n
  | .float x => Decimal.Layout.plain.text x
  | .text t => Text.quote t
  | .moment m => m.text
  | .octets value => Text.quoteOctets value
  | .list items => "[" ++ ", ".intercalate (inlineItems items) ++ "]"
  | .pair first second => "(" ++ inline first ++ ", " ++ inline second ++ ")"
  | .set [] => "set()"
  | .set members => "\x7b" ++ ", ".intercalate (inlineItems members) ++ "\x7d"
  | .ancestor isRecord => if isRecord then "\x7b...\x7d" else "[...]"
  | .record fields => "\x7b" ++ ", ".intercalate (inlineFields fields) ++ "\x7d"

/-- The texts of the items of a list. -/
def inlineItems : List Document → List String
  | [] => []
  | item :: rest => inline item :: inlineItems rest

/-- The texts of the fields of a record. -/
def inlineFields : List (Name × Document) → List String
  | [] => []
  | (name, value) :: rest => (name.inline ++ ": " ++ inline value) :: inlineFields rest

end

/-- The text of a value as a part of a longer text: a text stands without quotes. -/
def unquoted : Document → Text
  | .text t => t
  | d => d.inline

end RhythmTree.Document
