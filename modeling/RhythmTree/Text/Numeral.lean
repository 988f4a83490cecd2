import RhythmTree.Text.Digit

/-!
# Numerals

The shapes in which numbers are written: signs, runs of digits that single underscores may divide,
decimals with a point and an exponent, and ratios. A reader takes a whole text apart at its marks
and asks of every part that it is a run of digits, so it never has to give a character back.
-/

namespace RhythmTree.Text

/-- The value of an ASCII digit. -/
def asciiDigit? (c : Char) : Option Nat :=
  if c.isDigit then some (c.toNat - 48) else none

/-- The values of one or more digits, where a single underscore may stand between two digits. -/
def groupedDigits? (value? : Char → Option Nat) : List Char → Option (List Nat)
  | [] => none
  | c :: cs =>
    match value? c with
    | none => none
    | some digit =>
      match cs with
      | [] => some [digit]
      | '_' :: rest => (groupedDigits? value? rest).map (digit :: ·)
      | next :: rest => (groupedDigits? value? (next :: rest)).map (digit :: ·)

/-- The values of one or more digits with nothing between them. -/
def plainDigits? (value? : Char → Option Nat) : List Char → Option (List Nat)
  | [] => none
  | [c] => (value? c).map ([·])
  | c :: cs =>
    match value? c with
    | none => none
    | some digit => (plainDigits? value? cs).map (digit :: ·)

/-- A text without its underscores, if it has some, none at an end and no two in a row. -/
def ungrouped? (cs : List Char) : Option (List Char) :=
  let parts := cs.splitOn '_'
  if parts.length ≤ 1 || parts.any List.isEmpty then none else some parts.flatten

/-- Whether a text begins with a minus sign, and the text after its sign. -/
def splitSign : List Char → Bool × List Char
  | '-' :: cs => (true, cs)
  | '+' :: cs => (false, cs)
  | cs => (false, cs)

/-- The items before the first one of a set, and the items after it if there is one. -/
def splitAtFirst {α : Type} (mark : α → Bool) : List α → List α × Option (List α)
  | [] => ([], none)
  | c :: cs =>
    if mark c then ([], some cs)
    else
      let (before, after) := splitAtFirst mark cs
      (c :: before, after)

/-- A number with the sign in front. -/
def signed (negative : Bool) (n : Nat) : Int := if negative then -(n : Int) else n

/-- A whole number: an optional sign and a run of digits. -/
def wholeNumber? (run? : List Char → Option (List Nat)) (cs : List Char) : Option Int :=
  let (negative, body) := splitSign cs
  (run? body).map fun digits => signed negative (ofDigits digits)

/-- The parts of an unsigned decimal such as `12.5e-3`. -/
structure DecimalParts where
  /-- The digits before the point. -/
  whole : List Nat
  /-- The digits after the point. -/
  fraction : List Nat
  /-- The power of ten. -/
  exponent : Int
  deriving DecidableEq, Repr

namespace DecimalParts

/-- All digits as one number. -/
def coefficient (p : DecimalParts) : Nat := ofDigits (p.whole ++ p.fraction)

/-- The power of ten that the coefficient is multiplied by. -/
def scale (p : DecimalParts) : Int := p.exponent - p.fraction.length

end DecimalParts

/-- No digits, or a run of them. -/
def optionalRun? (run? : List Char → Option (List Nat)) (cs : List Char) : Option (List Nat) :=
  if cs.isEmpty then some [] else run? cs

/-- An unsigned decimal: digits, a point, digits and an exponent, each optional, with a digit at
the start or right after the leading point. -/
def decimal? (run? : List Char → Option (List Nat)) (cs : List Char) : Option DecimalParts := do
  let (mantissa, power) := splitAtFirst (fun c => c = 'e' || c = 'E') cs
  let (front, back) := splitAtFirst (· = '.') mantissa
  let whole ← optionalRun? run? front
  let fraction ← optionalRun? run? (back.getD [])
  let exponent ← match power with
    | none => some 0
    | some text => wholeNumber? run? text
  if whole.isEmpty && fraction.isEmpty then none
  else some ⟨whole, fraction, exponent⟩

end RhythmTree.Text
