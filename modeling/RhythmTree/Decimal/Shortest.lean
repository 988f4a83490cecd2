import RhythmTree.Decimal.Reader

/-!
# Shortest decimals

Every finite magnitude is written with the fewest decimal digits that read back as the same
magnitude, and among the decimals of that length with the one nearest to the exact value. The
search tries one digit, two digits and so on; at each length only the two neighbours of the exact
value on that decimal grid can be nearest. Seventeen digits always suffice.
-/

namespace RhythmTree.Decimal

/-- A decimal: its digits and the exponent of the power of ten that the first digit counts. -/
structure DecimalDigits where
  /-- The digits, the first of them not zero unless it stands alone. -/
  digits : List Char
  /-- The exponent of the first digit. -/
  exponent : Int
  deriving DecidableEq, Repr

/-- The exponent of the greatest power of ten that is at most a positive quotient. -/
def floorLog10 (num den : Nat) : Int :=
  let guess : Int := ((Nat.toDigits 10 num).length : Int) - (Nat.toDigits 10 den).length
  if den * tenTo guess.toNat ≤ num * tenTo (-guess).toNat then guess else guess - 1

/-- The multiple of a power of ten that reads back as a magnitude and is nearest to it. -/
def nearestOnGrid? (code : Nat) (scale : Int) : Option Nat :=
  let num := codeNum code * tenTo (-scale).toNat
  let den := codeDen code * tenTo scale.toNat
  let low := num / den
  let readsBack (n : Nat) : Bool := decimalCode n scale = code
  match readsBack low, readsBack (low + 1) with
  | true, true => some (roundDiv num den)
  | true, false => some low
  | false, true => some (low + 1)
  | false, false => none

/-- The first grid, from `count` digits on, that holds a decimal reading back as a magnitude. -/
def shortestFrom (code : Nat) (leading : Int) (count : Nat) : Nat → Nat × Int
  | 0 => (0, 0)
  | fuel + 1 =>
    let scale := leading + 1 - count
    match nearestOnGrid? code scale with
    | some n => (n, scale)
    | none => shortestFrom code leading (count + 1) fuel

/-- Digits without the zeros at their end. -/
def withoutTrailingZeros (digits : List Char) : List Char :=
  (digits.reverse.dropWhile (· = '0')).reverse

/-- The shortest decimal of a finite magnitude. -/
def shortest (code : Nat) : DecimalDigits :=
  if code = 0 then ⟨['0'], 0⟩
  else
    let leading := floorLog10 (codeNum code) (codeDen code)
    let (n, scale) := shortestFrom code leading 1 17
    let digits := Nat.toDigits 10 n
    ⟨withoutTrailingZeros digits, scale + digits.length - 1⟩

end RhythmTree.Decimal
