import RhythmTree.Document.Yaml.Fault

/-!
# YAML texts of files

A file is decoded and read in pieces, and a piece is looked at only when the text before it has been
used up. So a fault in the octets or the characters of a piece does not come to light if there is
another fault in the text before. Every line break is read as a line feed.
-/

namespace RhythmTree.Document.Yaml

/-- A text as far as it can be read. -/
structure Source where
  /-- The characters that can be read. -/
  chars : List Char
  /-- The fault that comes to light after them, unless the text ends there. -/
  fault : Option Fault
  deriving Repr

/-- A text with every line break written as a line feed. -/
def unifyBreaks : List Char → List Char
  | '\r' :: '\n' :: cs => '\n' :: unifyBreaks cs
  | '\r' :: cs => '\n' :: unifyBreaks cs
  | c :: cs => c :: unifyBreaks cs
  | [] => []

/-- The characters that a text may hold as they are: all but control characters and noncharacters
at the end of the basic plane. -/
def isAllowed (c : Char) : Bool :=
  let n := c.toNat
  n = 0x09 || n = 0x0A || n = 0x0D || (0x20 ≤ n && n ≤ 0x7E) || n = 0x85 ||
    (0xA0 ≤ n && n ≤ 0xFFFD) || 0x10000 ≤ n

namespace Source

/-- The number of characters in a piece. -/
def pieceSize : Nat := 4096

/-- The number of characters in whole pieces before a place; the first two pieces are one. -/
def piecesBefore (place : Nat) : Nat :=
  if place < 2 * pieceSize then 0 else place / pieceSize * pieceSize

/-- The part of a text before a fault at a place that comes to light with its piece. -/
def brokenAt (cs : List Char) (place : Nat) (fault : Fault) : Source :=
  ⟨cs.take (piecesBefore place), some fault⟩

/-- A text as far as its characters are allowed. -/
def checked (s : Source) : Source :=
  match s.chars.findIdx? fun c => !isAllowed c with
  | some place => brokenAt s.chars place .malformed
  | none => s

/-- The text of some characters. -/
def ofChars (cs : List Char) : Source := checked ⟨unifyBreaks cs, none⟩

/-- The characters before an error that have been decoded when it comes to light. A carriage return
waits for what follows. -/
def decodedBefore (octets : List UInt8) (error : Text.Utf8Error) : List Char :=
  let cs := Text.decodable (octets.take (error.decodedOctets octets))
  unifyBreaks (if cs.getLast? = some '\r' then cs.dropLast else cs)

/-- The text that octets encode. -/
def ofOctets (octets : List UInt8) : Source :=
  match Text.decode octets with
  | .ok decoded => ofChars decoded.toList
  | .error error =>
    let cs := decodedBefore octets error
    checked (brokenAt cs cs.length (.undecodable (error.inPieces octets)))

end Source

end RhythmTree.Document.Yaml
