import RhythmTree.Decimal.Binary64
import RhythmTree.Text.Blank
import RhythmTree.Text.Numeral

/-!
# Reading floating point values

A decimal numeral denotes an exact number, and reading it gives the nearest value. Powers of ten
far outside the range of the format are decided without being computed, so a long exponent costs
nothing.
-/

namespace RhythmTree.Decimal

/-- The code of the magnitude nearest to a whole number times a power of ten. -/
def decimalCode (coefficient : Nat) (scale : Int) : Nat :=
  if coefficient = 0 then 0
  else if 400 < scale then finiteCodes
  else if scale + Nat.log2 coefficient + 1 < -400 then 0
  else nearestCode (coefficient * tenTo scale.toNat) (tenTo (-scale).toNat)

namespace Binary64

/-- The value nearest to a decimal. -/
def ofDecimal (negative : Bool) (parts : Text.DecimalParts) : Binary64 :=
  ofCode negative (decimalCode parts.coefficient parts.scale)

/-- The names of the values that are not finite, in lower case. -/
def named? (negative : Bool) (name : String) : Option Binary64 :=
  if name = "nan" then some .nan
  else if name = "inf" || name = "infinity" then some (.infinite negative)
  else none

/-- The value of a text that holds nothing but a numeral or a name, with an optional sign. -/
def ofNumeral? (cs : List Char) : Option Binary64 :=
  let (negative, body) := Text.splitSign cs
  match named? negative (String.ofList (body.map Char.toLower)) with
  | some value => some value
  | none =>
    (Text.decimal? (Text.plainDigits? Text.asciiDigit?) body).map (ofDecimal negative)

/-- The value of a text: a numeral with white space around it, or one with single underscores
inside and no white space. -/
def ofText? (s : String) : Option Binary64 :=
  match ofNumeral? (Text.trim Text.isSpace s.toList) with
  | some value => some value
  | none => (Text.ungrouped? s.toList).bind ofNumeral?

end Binary64

end RhythmTree.Decimal
