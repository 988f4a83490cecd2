/-!
# UTF-8

Characters from octets. The lead octet of a character says how many octets follow and in which
range the first of them lies; all others lie between 80 and BF in base sixteen. An error names the
octets of the character that could not be completed.
-/

namespace RhythmTree.Text

/-- Why octets are no text. -/
inductive Utf8Fault
  /-- An octet that starts no character. -/
  | start
  /-- An octet that does not continue the character before it. -/
  | continuation
  /-- The end of the text inside a character. -/
  | unfinished
  deriving DecidableEq, Repr

/-- The words for a fault. -/
def Utf8Fault.text : Utf8Fault → String
  | .start => "invalid start byte"
  | .continuation => "invalid continuation byte"
  | .unfinished => "unexpected end of data"

/-- Where octets stop being a text. -/
structure Utf8Error where
  /-- What is wrong. -/
  fault : Utf8Fault
  /-- How many octets are before the character. -/
  position : Nat
  /-- The first octet of the character. -/
  lead : Nat
  /-- How many octets of the character there are. -/
  count : Nat
  deriving DecidableEq, Repr

namespace Utf8Error

/-- An octet in base sixteen. -/
def octetText (n : Nat) : String :=
  let digits := Nat.toDigits 16 n
  "0x" ++ String.ofList (List.replicate (2 - digits.length) '0' ++ digits)

/-- The octets of the character, as messages name them. -/
def place (e : Utf8Error) : String :=
  if e.count = 1 then "byte " ++ octetText e.lead ++ " in position " ++ toString e.position
  else
    "bytes in position " ++ toString e.position ++ "-" ++ toString (e.position + e.count - 1)

/-- The message of an error. -/
def message (e : Utf8Error) : String :=
  "'utf-8' codec can't decode " ++ e.place ++ ": " ++ e.fault.text

/-- The number of octets in a piece. -/
def pieceSize : Nat := 8192

/-- There is an octet at a position that goes on a character. -/
def goesOn (octets : List UInt8) (position : Nat) : Bool :=
  octets[position]?.any fun octet => 0x80 ≤ octet && octet ≤ 0xBF

/-- The position of the first octet of the character at a position. -/
def characterStart (octets : List UInt8) : Nat → Nat
  | 0 => 0
  | n + 1 => if goesOn octets (n + 1) then characterStart octets n else n + 1

/-- A piece ends after the first two octets of a surrogate, which might go on. -/
def isCutSurrogate (octets : List UInt8) (position : Nat) : Bool :=
  let isEnd := position + 2 = octets.length || (position + 2) % pieceSize = 0
  isEnd && octets[position]? = some 0xED &&
    octets[position + 1]?.any fun octet => 0xA0 ≤ octet && octet ≤ 0xBF

/-- The first octet of the piece in which an error comes to light. -/
def pieceStart (e : Utf8Error) : Nat :=
  let wrong := if e.fault = .continuation then e.position + e.count else e.position
  wrong / pieceSize * pieceSize

/-- An error comes to light only with what follows the octets at hand. -/
def isLate (octets : List UInt8) (e : Utf8Error) : Bool :=
  e.fault = .unfinished || isCutSurrogate octets e.position

/-- The error of a reader that takes a text in pieces, with the position in the piece at hand. What
might go on at the end of a piece is put in front of the next one. -/
def inPieces (octets : List UInt8) (e : Utf8Error) : Utf8Error :=
  if e.isLate octets || e.position ≤ e.pieceStart then { e with position := 0 }
  else { e with position := e.position - characterStart octets e.pieceStart }

/-- The number of octets that a reader in pieces has been given when an error comes to light. -/
def decodedOctets (octets : List UInt8) (e : Utf8Error) : Nat :=
  if e.isLate octets then e.position else min e.position e.pieceStart

end Utf8Error

/-- A character of which some octets have been read. -/
structure Utf8Partial where
  /-- The first octet. -/
  lead : Nat
  /-- How many octets have been read. -/
  count : Nat
  /-- The bits that have been read. -/
  bits : Nat
  /-- How many octets follow after the next one. -/
  following : Nat
  /-- The least value of the next octet. -/
  least : Nat
  /-- The greatest value of the next octet. -/
  greatest : Nat

/-- The character that a lead octet of several octets starts. -/
def Utf8Partial.ofLead? (n : Nat) : Option Utf8Partial :=
  if 0xC2 ≤ n && n ≤ 0xDF then some ⟨n, 1, n - 0xC0, 0, 0x80, 0xBF⟩
  else if n = 0xE0 then some ⟨n, 1, 0, 1, 0xA0, 0xBF⟩
  else if n = 0xED then some ⟨n, 1, 0xD, 1, 0x80, 0x9F⟩
  else if 0xE1 ≤ n && n ≤ 0xEF then some ⟨n, 1, n - 0xE0, 1, 0x80, 0xBF⟩
  else if n = 0xF0 then some ⟨n, 1, 0, 2, 0x90, 0xBF⟩
  else if n = 0xF4 then some ⟨n, 1, 4, 2, 0x80, 0x8F⟩
  else if 0xF1 ≤ n && n ≤ 0xF3 then some ⟨n, 1, n - 0xF0, 2, 0x80, 0xBF⟩
  else none

/-- The error of a character that cannot be completed, some octets into the text. -/
def Utf8Partial.error (p : Utf8Partial) (fault : Utf8Fault) (position : Nat) : Utf8Error :=
  ⟨fault, position - p.count, p.lead, p.count⟩

/-- The characters of the octets from a position on, after the octets of an incomplete one. -/
def decodeFrom (position : Nat) : Option Utf8Partial → List UInt8 → Except Utf8Error (List Char)
  | none, [] => .ok []
  | some p, [] => .error (p.error .unfinished position)
  | none, octet :: rest =>
    let n := octet.toNat
    if n < 0x80 then (decodeFrom (position + 1) none rest).map (Char.ofNat n :: ·)
    else
      match Utf8Partial.ofLead? n with
      | some p => decodeFrom (position + 1) (some p) rest
      | none => .error ⟨.start, position, n, 1⟩
  | some p, octet :: rest =>
    let n := octet.toNat
    if p.least ≤ n && n ≤ p.greatest then
      let bits := 64 * p.bits + (n - 0x80)
      match p.following with
      | 0 => (decodeFrom (position + 1) none rest).map (Char.ofNat bits :: ·)
      | following + 1 =>
        decodeFrom (position + 1) (some ⟨p.lead, p.count + 1, bits, following, 0x80, 0xBF⟩) rest
    else .error (p.error .continuation position)

/-- The text that octets encode. -/
def decode (octets : List UInt8) : Except Utf8Error String :=
  (decodeFrom 0 none octets).map String.ofList

/-- The characters of octets up to the first error. -/
def decodable (octets : List UInt8) : List Char :=
  match decodeFrom 0 none octets with
  | .ok cs => cs
  | .error error => ((decodeFrom 0 none (octets.take error.position)).toOption).getD []

end RhythmTree.Text
