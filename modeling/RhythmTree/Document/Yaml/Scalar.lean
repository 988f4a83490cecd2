import RhythmTree.Document.Basic
import RhythmTree.Document.Yaml.Number
import RhythmTree.Document.Yaml.Timestamp
import RhythmTree.Text.Base64

/-!
# Meanings of nodes

What a node means is a matter of its kind. A tag names the kind; without a tag a list or a record is
just that, a scalar between quotes is a text, and a scalar without quotes is of the first kind whose
texts are written in its way: a truth value, a number, a moment, nothing, or else a text. Two kinds
mean something only as names of fields.
-/

namespace RhythmTree.Document.Yaml

/-- What kind of value a node means. -/
inductive Kind
  | null
  | bool
  | int
  | float
  | moment
  | octets
  | text
  | list
  /-- A list of pairs, which is written as a list of records with one field each. -/
  | pairs
  /-- A set, which is written as a record with the members as names. -/
  | set
  | record
  /-- The name under which a record takes in the fields of others. -/
  | merge
  /-- The name of the value that a record may stand for. -/
  | value
  /-- No value at all. -/
  | unknown
  deriving DecidableEq, Repr

/-- The words for truth values. -/
def truthWords : List String :=
  ["yes", "Yes", "YES", "no", "No", "NO", "true", "True", "TRUE", "false", "False", "FALSE", "on",
    "On", "ON", "off", "Off", "OFF"]

/-- The kind of a scalar whose characters decide. -/
def Kind.ofChars (cs : List Char) : Kind :=
  let word := String.ofList cs
  if ["~", "null", "Null", "NULL"].contains word then .null
  else if truthWords.contains word then .bool
  else if isFloat cs then .float
  else if isWhole cs then .int
  else if word = "<<" then .merge
  else if isMoment cs then .moment
  else if word = "=" then .value
  else if ["!", "&", "*"].contains word then .unknown
  else .text

/-- The kind of a scalar whose text decides. A line feed at the end does not count, and no text at
all means nothing. -/
def Kind.ofText (t : Text) : Kind :=
  match t.chars? with
  | none => .text
  | some [] => .null
  | some cs => if cs = ['\n'] then .text else .ofChars (withoutLastBreak cs)

/-- The kind that a tag names, given without the beginning that all tags of kinds share. -/
def Kind.ofWord : String → Kind
  | "null" => .null
  | "bool" => .bool
  | "int" => .int
  | "float" => .float
  | "timestamp" => .moment
  | "binary" => .octets
  | "str" => .text
  | "seq" => .list
  | "omap" | "pairs" => .pairs
  | "set" => .set
  | "map" => .record
  | "merge" => .merge
  | "value" => .value
  | _ => .unknown

/-- The beginning that the tags of all kinds share. -/
def kindBeginning : List Char := "tag:yaml.org,2002:".toList

/-- The kind that a tag names. -/
def Kind.ofTag (tag : List Char) : Kind :=
  if kindBeginning.isPrefixOf tag then .ofWord (String.ofList (tag.drop kindBeginning.length))
  else .unknown

/-- The truth value that a text in letters of either size spells. -/
def readBool (t : Text) : Except Fault Bool :=
  let small := t.lower
  if ["yes", "true", "on"].any fun word => small = Text.ofString word then .ok true
  else if ["no", "false", "off"].any fun word => small = Text.ofString word then .ok false
  else .error (.notTruth small)

/-- The octets that a text spells in base 64. -/
def readOctets (t : Text) : Except Fault (List UInt8) :=
  match Text.base64? t with
  | some value => .ok value
  | none => .error .malformed

/-- The value that a text means as a scalar of a kind. -/
def Kind.read (t : Text) : Kind → Except Fault Document
  | .null => .ok .null
  | .bool => (readBool t).map .bool
  | .int => (readWhole t).map .int
  | .float => (readFloat t).map .float
  | .moment => (readMoment t).map .moment
  | .octets => (readOctets t).map .octets
  | .text => .ok (.text t)
  | _ => .error .malformed

end RhythmTree.Document.Yaml
