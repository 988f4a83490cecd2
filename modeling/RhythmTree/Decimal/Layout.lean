import RhythmTree.Decimal.Shortest

/-!
# Layout of floating point values

How the shortest decimal of a value is set out: positionally, with at least one digit on each side
of the point, while the exponent of its first digit lies in a range, and otherwise with one digit
before the point and a signed exponent of at least two digits.
-/

namespace RhythmTree.Decimal

/-- The choices that turn a value into text. -/
structure Layout where
  /-- The least exponent of the first digit that is written positionally. -/
  leastPositional : Int
  /-- The first exponent that is too large to be written positionally. -/
  firstScientific : Int
  /-- The least number of digits of a written exponent. -/
  exponentWidth : Nat
  /-- The text of the value that is not a number. -/
  nanText : String
  /-- The text of an infinity without its sign. -/
  infinityText : String

/-- Floating point values in messages and answers. -/
def Layout.plain : Layout := ⟨-4, 16, 2, "nan", "inf"⟩

/-- Floating point values in JSON texts. -/
def Layout.json : Layout := ⟨-4, 16, 2, "NaN", "Infinity"⟩

/-- A number in base ten, filled up with zeros to a width. -/
def padded (width n : Nat) : List Char :=
  let digits := Nat.toDigits 10 n
  List.replicate (width - digits.length) '0' ++ digits

/-- Digits on both sides of a decimal point. -/
def positional (d : DecimalDigits) : List Char :=
  if d.exponent < 0 then
    '0' :: '.' :: List.replicate (-d.exponent - 1).toNat '0' ++ d.digits
  else
    let width := d.exponent.toNat + 1
    let whole := d.digits.take width ++ List.replicate (width - d.digits.length) '0'
    let fraction := d.digits.drop width
    whole ++ '.' :: (if fraction.isEmpty then ['0'] else fraction)

/-- One digit before the point, and an exponent. -/
def scientific (width : Nat) (d : DecimalDigits) : List Char :=
  let mantissa := match d.digits with
    | first :: next :: rest => first :: '.' :: next :: rest
    | digits => digits
  let sign := if d.exponent < 0 then '-' else '+'
  mantissa ++ 'e' :: sign :: padded width d.exponent.natAbs

/-- The text of a finite magnitude. -/
def Layout.magnitude (layout : Layout) (code : Nat) : List Char :=
  let d := shortest code
  if layout.leastPositional ≤ d.exponent && d.exponent < layout.firstScientific then positional d
  else scientific layout.exponentWidth d

/-- The text of a value. -/
def Layout.text (layout : Layout) (x : Binary64) : String :=
  let sign (negative : Bool) : List Char := if negative then ['-'] else []
  match x with
  | .nan => layout.nanText
  | .infinite negative => String.ofList (sign negative ++ layout.infinityText.toList)
  | .finite negative code => String.ofList (sign negative ++ layout.magnitude code)

end RhythmTree.Decimal
