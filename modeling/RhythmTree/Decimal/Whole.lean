import RhythmTree.Text.Blank
import RhythmTree.Text.Digit
import RhythmTree.Text.Numeral

/-!
# Reading whole numbers

A lenient spelling of whole numbers in ASCII digits. It is made plain step by step: white space
around it is dropped, then a sign in front, then zeros in front with underscores among them, then a
point with zeros behind it, then single underscores. What is left has to be a plain numeral, whose
first digit is zero only if it is the only one; a minus sign may also stand right behind the zeros
in front, unless there was a sign before them.
-/

namespace RhythmTree.Decimal

/-- The value of a plain numeral without a sign. -/
def plainNatural? (cs : List Char) : Option Nat :=
  match Text.plainDigits? Text.asciiDigit? cs with
  | some (0 :: _ :: _) => none
  | digits => digits.map Text.ofDigits

/-- The value of a plain numeral, perhaps with a minus sign. -/
def plainInteger? : List Char → Option Int
  | '-' :: cs => (plainNatural? cs).map fun n => -(n : Int)
  | cs => (plainNatural? cs).map fun n => (n : Int)

/-- A character that may start a numeral without needless zeros. -/
def startsNumeral (c : Char) : Bool := c = '-' || (c.isDigit && c ≠ '0')

/-- A numeral without the zeros and underscores in front, the last character before it given. If
nothing but these is left, or a point follows, the last of them stays. -/
def dropZeros? (last : Char) : List Char → Option (List Char)
  | [] => some [last]
  | c :: cs =>
    if c = '0' || c = '_' then dropZeros? c cs
    else if startsNumeral c then some (c :: cs)
    else if c = '.' then some (last :: c :: cs)
    else none

/-- A numeral without zeros in front. -/
def withoutLeadingZeros? : List Char → Option (List Char)
  | [] => none
  | c :: cs =>
    if c = '0' then dropZeros? c cs
    else if startsNumeral c then some (c :: cs)
    else none

/-- A numeral without the point and the zeros at its end. -/
def withoutZeroFraction (cs : List Char) : List Char :=
  match Text.splitAtFirst (· = '.') cs with
  | (front, some zeros) => if !zeros.isEmpty && zeros.all (· = '0') then front else cs
  | (_, none) => cs

/-- A numeral made plain, a sign in front aside. -/
def plainForm? (cs : List Char) : Option (List Char) :=
  (withoutLeadingZeros? cs).map fun rest =>
    let whole := withoutZeroFraction rest
    (Text.ungrouped? whole).getD whole

/-- The whole number that a text spells. -/
def whole? (s : String) : Option Int :=
  match Text.trim Text.isSpace s.toList with
  | '-' :: cs => ((plainForm? cs).bind plainNatural?).map fun n => -(n : Int)
  | '+' :: '-' :: _ => none
  | '+' :: cs => (plainForm? cs).bind plainInteger?
  | cs => (plainForm? cs).bind plainInteger?

end RhythmTree.Decimal
