import RhythmTree.Decimal.Reader
import RhythmTree.Document.Basic
import RhythmTree.Text.Numeral

/-!
# Lexemes of JSON

A JSON text as a sequence of brackets, separators and scalars. One machine reads the characters
from left to right: it stands between lexemes, inside a bare word, or inside a quoted text and
there possibly inside an escape. A bare word runs up to the next blank, quote, bracket or separator
and has to be a number or one of the six names. Beside the four names of JSON proper, `NaN` and
`Infinity` (with a sign) name floating point values.
-/

namespace RhythmTree.Document.Json

open Decimal (Binary64)

/-- A piece of a JSON text. -/
inductive Lexeme
  | openList
  | closeList
  | openRecord
  | closeRecord
  | comma
  | colon
  /-- A value that is neither a list nor a record. -/
  | scalar (value : Document)
  deriving Repr

/-- A number: an integer part without needless zeros, an optional fraction and exponent. Without
both it is a whole number. -/
def number? (cs : List Char) : Option Document := do
  let (negative, body) := match cs with
    | '-' :: rest => (true, rest)
    | rest => (false, rest)
  let (mantissa, power) := Text.splitAtFirst (fun c => c = 'e' || c = 'E') body
  let (front, back) := Text.splitAtFirst (· = '.') mantissa
  let whole ← Text.plainDigits? Text.asciiDigit? front
  if 1 < whole.length && whole.head? = some 0 then none
  let fraction ← match back with
    | none => some []
    | some digits => Text.plainDigits? Text.asciiDigit? digits
  let exponent ← match power with
    | none => some 0
    | some digits => Text.wholeNumber? (Text.plainDigits? Text.asciiDigit?) digits
  if back.isNone && power.isNone then
    return .int (Text.signed negative (Text.ofDigits whole))
  return .float (Binary64.ofDecimal negative ⟨whole, fraction, exponent⟩)

/-- The value of a bare word. -/
def word? (cs : List Char) : Option Document :=
  match String.ofList cs with
  | "null" => some .null
  | "true" => some (.bool true)
  | "false" => some (.bool false)
  | "NaN" => some (.float .nan)
  | "Infinity" => some (.float (.infinite false))
  | "-Infinity" => some (.float (.infinite true))
  | _ => number? cs

/-- Characters that may stand between lexemes. -/
def isGap (c : Char) : Bool := c = ' ' || c = '\t' || c = '\n' || c = '\r'

/-- The bracket or separator that a character is. -/
def mark? : Char → Option Lexeme
  | '[' => some .openList
  | ']' => some .closeList
  | '\x7b' => some .openRecord
  | '\x7d' => some .closeRecord
  | ',' => some .comma
  | ':' => some .colon
  | _ => none

/-- The value of a hexadecimal digit. -/
def hexDigit? (c : Char) : Option Nat :=
  let n := c.toNat
  if 48 ≤ n && n ≤ 57 then some (n - 48)
  else if 97 ≤ n && n ≤ 102 then some (n - 87)
  else if 65 ≤ n && n ≤ 70 then some (n - 55)
  else none

/-- The character that a one-letter escape stands for. -/
def simpleEscape? : Char → Option Char
  | '"' => some '"'
  | '\\' => some '\\'
  | '/' => some '/'
  | 'b' => some '\x08'
  | 'f' => some '\x0c'
  | 'n' => some '\n'
  | 'r' => some '\r'
  | 't' => some '\t'
  | _ => none

/-- A part of a quoted text. -/
inductive Piece
  /-- A symbol that stands for itself, or that a one-letter escape stands for. -/
  | symbol (symbol : Text.Symbol)
  /-- A code point in base sixteen. -/
  | escape (code : Nat)

/-- The symbols that the parts of a quoted text spell: two escapes in a row may be the halves of one
character, and any other surrogate stands alone. -/
def symbolsOf : List Piece → List Text.Symbol
  | .escape high :: .escape low :: rest =>
    if Text.isPair high low then .char (Text.ofPair high low) :: symbolsOf rest
    else .ofCode high :: symbolsOf (.escape low :: rest)
  | .escape code :: rest => .ofCode code :: symbolsOf rest
  | .symbol symbol :: rest => symbol :: symbolsOf rest
  | [] => []

/-- Where the machine stands. What has been read of a lexeme is kept in reverse. -/
inductive Position
  /-- Between two lexemes. -/
  | between
  /-- Inside a bare word. -/
  | word (read : List Char)
  /-- Inside a quoted text. -/
  | quoted (units : List Piece)
  /-- After a backslash. -/
  | escape (units : List Piece)
  /-- Inside a hexadecimal escape, with its value so far and the number of digits to come after the
  next. -/
  | hex (units : List Piece) (value remaining : Nat)

/-- What a character does that is not part of the lexeme before it. -/
def enter (c : Char) : Option Lexeme × Position :=
  if isGap c then (none, .between)
  else
    match mark? c with
    | some lexeme => (some lexeme, .between)
    | none => if c = '"' then (none, .quoted []) else (none, .word [c])

/-- Characters that go on a bare word. -/
def isWordChar (c : Char) : Bool := !isGap c && (mark? c).isNone && c ≠ '"'

/-- The lexemes of the rest of a text. A surrogate that stands alone can only be a part of a quoted
text. -/
def lexFrom : Position → List Text.Symbol → Option (List Lexeme)
  | .between, [] => some []
  | .word read, [] => (word? read.reverse).map fun value => [.scalar value]
  | _, [] => none
  | .quoted units, .half number :: rest =>
    lexFrom (.quoted (.symbol (.half number) :: units)) rest
  | _, .half _ :: _ => none
  | .between, .char c :: rest =>
    let (lexeme, position) := enter c
    (lexFrom position rest).map (lexeme.toList ++ ·)
  | .word read, .char c :: rest =>
    if isWordChar c then lexFrom (.word (c :: read)) rest
    else
      match word? read.reverse with
      | none => none
      | some value =>
        let (lexeme, position) := enter c
        (lexFrom position rest).map (.scalar value :: lexeme.toList ++ ·)
  | .quoted units, .char c :: rest =>
    if c = '"' then
      (lexFrom .between rest).map (.scalar (.text ⟨symbolsOf units.reverse⟩) :: ·)
    else if c = '\\' then lexFrom (.escape units) rest
    else if c.toNat < 0x20 then none
    else lexFrom (.quoted (.symbol (.char c) :: units)) rest
  | .escape units, .char c :: rest =>
    if c = 'u' then lexFrom (.hex units 0 3) rest
    else
      match simpleEscape? c with
      | none => none
      | some plain => lexFrom (.quoted (.symbol (.char plain) :: units)) rest
  | .hex units value remaining, .char c :: rest =>
    match hexDigit? c, remaining with
    | none, _ => none
    | some digit, 0 => lexFrom (.quoted (.escape (16 * value + digit) :: units)) rest
    | some digit, left + 1 => lexFrom (.hex units (16 * value + digit) left) rest

/-- The lexemes of a text. -/
def lex (t : Text) : Option (List Lexeme) := lexFrom .between t.symbols

end RhythmTree.Document.Json
