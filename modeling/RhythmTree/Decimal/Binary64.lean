import RhythmTree.Decimal.Power

/-!
# Binary floating point of 64 bits

The values of the binary interchange format of 64 bits as exact numbers: a value that is not a
number, two infinities, and the finite values, each a sign and a magnitude. The magnitudes are
counted upward from zero, so a magnitude is the number below `finiteCodes` of the ones before it;
its mantissa and exponent are read off that number.

Rounding goes to the nearest value, and from the middle between two to the one with the even
mantissa. `nearestCode` counts on beyond the greatest finite magnitude, so overflow is a code that
is too large.
-/

namespace RhythmTree.Decimal

/-- The number of finite magnitudes. -/
def finiteCodes : Nat := 2047 * twoTo 52

/-- A binary floating point value of 64 bits. -/
inductive Binary64
  /-- The value that is not a number. -/
  | nan
  /-- An infinity. -/
  | infinite (negative : Bool)
  /-- A finite value, zero among them with either sign. -/
  | finite (negative : Bool) (code : Fin finiteCodes)
  deriving DecidableEq, Repr

/-- A quotient rounded to the nearest whole number, from the middle to the even one. -/
def roundDiv (num den : Nat) : Nat :=
  let quotient := num / den
  let twice := 2 * (num % den)
  if twice < den then quotient
  else if den < twice then quotient + 1
  else if quotient % 2 = 0 then quotient
  else quotient + 1

/-- The exponent of the greatest power of two that is at most a positive quotient. -/
def floorLog2 (num den : Nat) : Int :=
  let guess : Int := (Nat.log2 num : Int) - (Nat.log2 den : Int)
  if den * twoTo guess.toNat ≤ num * twoTo (-guess).toNat then guess else guess - 1

/-- The code of the magnitude nearest to a quotient, `finiteCodes` or more when it overflows. -/
def nearestCode (num den : Nat) : Nat :=
  if num = 0 then 0
  else
    let power : Int := max (-1074) (floorLog2 num den - 52)
    let mantissa := roundDiv (num * twoTo (-power).toNat) (den * twoTo power.toNat)
    (power + 1074).toNat * twoTo 52 + mantissa

/-- The mantissa of a magnitude. -/
def mantissa (code : Nat) : Nat :=
  if code < twoTo 52 then code else twoTo 52 + code % twoTo 52

/-- The power of two that multiplies the mantissa of a magnitude. -/
def exponent (code : Nat) : Int :=
  if code < twoTo 52 then -1074 else (code / twoTo 52 : Nat) - 1075

/-- The numerator of a magnitude. -/
def codeNum (code : Nat) : Nat := mantissa code * twoTo (exponent code).toNat

/-- The denominator of a magnitude, a power of two. -/
def codeDen (code : Nat) : Nat := twoTo (-(exponent code)).toNat

theorem codeDen_pos (code : Nat) : 0 < codeDen code := twoTo_pos _

namespace Binary64

/-- The value with a sign and the code of its magnitude, an infinity when the code is too large. -/
def ofCode (negative : Bool) (code : Nat) : Binary64 :=
  if h : code < finiteCodes then .finite negative ⟨code, h⟩ else .infinite negative

/-- The value nearest to a signed quotient. -/
def ofRatio (negative : Bool) (num den : Nat) : Binary64 :=
  ofCode negative (nearestCode num den)

/-- The value nearest to a whole number. -/
def ofInt (n : Int) : Binary64 := ofRatio (decide (n < 0)) n.natAbs 1

/-- The value nearest to a rational number. -/
def ofRat (q : Rat) : Binary64 := ofRatio (decide (q < 0)) q.num.natAbs q.den

/-- The exact number a finite value stands for. -/
def toRat? : Binary64 → Option Rat
  | .finite negative code =>
    let magnitude := mkRat (codeNum code) (codeDen code)
    some (if negative then -magnitude else magnitude)
  | _ => none

/-- A finite value without its fraction. -/
def truncate? : Binary64 → Option Int
  | .finite negative code =>
    let whole : Int := (codeNum code / codeDen code : Nat)
    some (if negative then -whole else whole)
  | _ => none

/-- A finite value without a fraction. -/
def isWhole : Binary64 → Bool
  | .finite _ code => codeNum code % codeDen code = 0
  | _ => false

/-- Neither an infinity nor the value that is not a number. -/
def isFinite : Binary64 → Bool
  | .finite _ _ => true
  | _ => false

end Binary64

end RhythmTree.Decimal
