import RhythmTree.Decimal.Reader
import RhythmTree.Document.Json.Lexeme
import RhythmTree.Document.Yaml.Fault
import RhythmTree.Text.Case

/-!
# Numbers in YAML

Whole numbers in base two, eight, ten, sixteen or sixty, and floating point numbers in base ten or
sixty. Underscores may stand among the digits and mean nothing. A floating point number has a point,
and a sign in its exponent; in base sixty the places are rounded one by one, the last one first.

Which texts are written like numbers is one question, what number a text spells is another: a tag
can say that any text is a number. Then white space may stand around the digits, which may be of any
script, and there may be a second sign.
-/

namespace RhythmTree.Document.Yaml

open Decimal (Binary64)

/-! ### What is written like a number -/

/-- A digit or an underscore. -/
def isDigitOrUnderscore (c : Char) : Bool := c.isDigit || c = '_'

/-- The value of a digit up to sixteen. -/
def digitBelow? (base : Nat) (c : Char) : Option Nat :=
  (Json.hexDigit? c).filter (· < base)

/-- One or more digits of a base, and underscores. -/
def isRun (base : Nat) (cs : List Char) : Bool :=
  !cs.isEmpty && cs.all fun c => c = '_' || (digitBelow? base c).isSome

/-- A digit, and then digits and underscores. -/
def startsWithDigit (cs : List Char) : Bool :=
  (cs.head?.any Char.isDigit) && cs.all isDigitOrUnderscore

/-- A place of a number in base sixty, after the first. -/
def isPlace : List Char → Bool
  | [a] => a.isDigit
  | [a, b] => '0' ≤ a && a ≤ '5' && b.isDigit
  | _ => false

/-- The places of a number in base sixty, of which there are two at least. -/
def isSexagesimal (cs : List Char) : Bool :=
  match cs.splitOn ':' with
  | first :: next :: rest => startsWithDigit first && (next :: rest).all isPlace
  | _ => false

/-- A text without a sign is written like a whole number. -/
def isNatural : List Char → Bool
  | ['0'] => true
  | '0' :: 'b' :: digits => isRun 2 digits
  | '0' :: 'x' :: digits => isRun 16 digits
  | '0' :: digits => isRun 8 digits
  | cs => startsWithDigit cs || isSexagesimal cs

/-- A text is written like a whole number. -/
def isWhole (cs : List Char) : Bool := isNatural (Text.splitSign cs).2

/-- An exponent with its sign. -/
def isExponent : List Char → Bool
  | c :: digits => (c = '+' || c = '-') && !digits.isEmpty && digits.all Char.isDigit
  | [] => false

/-- A text without a sign is written like a floating point number in base ten. -/
def isDecimal (cs : List Char) : Bool :=
  let (mantissa, power) := Text.splitAtFirst (fun c => c = 'e' || c = 'E') cs
  match Text.splitAtFirst (· = '.') mantissa with
  | (front, some tail) =>
    front.all isDigitOrUnderscore && tail.all isDigitOrUnderscore &&
      (front ++ tail).head?.any Char.isDigit && power.all isExponent
  | (_, none) => false

/-- A text without a sign is written like a floating point number in base sixty. -/
def isSexagesimalPoint (cs : List Char) : Bool :=
  match Text.splitAtFirst (· = '.') cs with
  | (front, some tail) => isSexagesimal front && tail.all isDigitOrUnderscore
  | (_, none) => false

/-- A text without a sign names an infinity. -/
def isInfinity (cs : List Char) : Bool :=
  [".inf", ".Inf", ".INF"].contains (String.ofList cs)

/-- A text is written like a floating point number. A point in front takes no sign, but a name. -/
def isFloat (cs : List Char) : Bool :=
  let body := (Text.splitSign cs).2
  isInfinity body || [".nan", ".NaN", ".NAN"].contains (String.ofList cs) ||
    ((isDecimal body || isSexagesimalPoint body) && (body.head? ≠ some '.' || body = cs))

/-! ### What number a text spells -/

/-- A text without underscores. -/
def withoutUnderscores (t : Text) : Text := ⟨t.symbols.filter (· ≠ .char '_')⟩

/-- The rest of a text after its sign, which says whether the number is negative. The text may not
be empty. -/
def splitSign (t : Text) : Except Fault (Bool × Text) :=
  match t.symbols with
  | [] => .error .noDigits
  | .char '-' :: rest => .ok (true, ⟨rest⟩)
  | .char '+' :: rest => .ok (false, ⟨rest⟩)
  | _ => .ok (false, t)

/-- The text after the letter that may mark a base, behind a zero. -/
def afterBaseMark (base : Nat) : List Char → List Char
  | '0' :: c :: cs =>
    let marks := if base = 16 then ['x', 'X'] else if base = 8 then ['o', 'O']
      else if base = 2 then ['b', 'B'] else []
    if marks.contains c then cs else '0' :: c :: cs
  | cs => cs

/-- A character, where a decimal digit of any script becomes the ASCII digit. -/
def plainDigit (c : Char) : Char :=
  match Text.digitValue? c with
  | some digit => Char.ofNat (48 + digit)
  | none => c

/-- The whole number that a text spells in a base, with a sign and the mark of the base. -/
def wholeIn? (base : Nat) (t : Text) : Option Int := do
  let cs := (Text.trim Text.isSpace (← t.chars?)).map plainDigit
  let (negative, body) := Text.splitSign cs
  let digits ← (afterBaseMark base body).mapM (digitBelow? base)
  if digits.isEmpty then none
  else
    some (Text.signed negative (digits.foldl (fun total digit => base * total + digit) 0))

/-- The whole number that a text spells in a base. -/
def wholeIn (base : Nat) (t : Text) : Except Fault Int :=
  match wholeIn? base t with
  | some n => .ok n
  | none => .error (.notWhole base t)

/-- The texts between colons. -/
def colonParts (t : Text) : List Text := (t.symbols.splitOn (.char ':')).map Text.mk

/-- The whole number that a text without sign and underscores spells. -/
def unsignedWhole (t : Text) : Except Fault Int :=
  match t.symbols with
  | [] => .error .noDigits
  | [.char '0'] => .ok 0
  | .char '0' :: .char 'b' :: rest => wholeIn 2 ⟨rest⟩
  | .char '0' :: .char 'x' :: rest => wholeIn 16 ⟨rest⟩
  | .char '0' :: _ => wholeIn 8 t
  | _ => do
    let places ← (colonParts t).mapM (wholeIn 10)
    return places.foldl (fun total place => 60 * total + place) 0

/-- The whole number that a text spells. -/
def readWhole (t : Text) : Except Fault Int := do
  let (negative, body) ← splitSign (withoutUnderscores t)
  let n ← unsignedWhole body
  return if negative then -n else n

/-- A value with the other sign. -/
def opposite : Binary64 → Binary64
  | .nan => .nan
  | .infinite negative => .infinite (!negative)
  | .finite negative code => .finite (!negative) code

/-- The floating point number in base ten that some characters spell, with a sign and white space
around. -/
def decimalOf? (cs : List Char) : Option Binary64 :=
  let (negative, body) := Text.splitSign (Text.trim Text.isSpace cs)
  match Binary64.named? negative (String.ofList (body.map Char.toLower)) with
  | some x => some x
  | none =>
    (Text.decimal? (Text.plainDigits? Text.digitValue?) body).map (Binary64.ofDecimal negative)

/-- The floating point number in base ten that a text spells. -/
def readDecimal (t : Text) : Except Fault Binary64 :=
  match t.chars?.bind decimalOf? with
  | some x => .ok x
  | none => .error (.notFloat t)

/-- The sum of two values, rounded. -/
def plus : Binary64 → Binary64 → Binary64
  | .infinite a, .infinite b => if a = b then .infinite a else .nan
  | .infinite a, .finite _ _ => .infinite a
  | .finite _ _, .infinite b => .infinite b
  | .finite a m, .finite b n =>
    if m.val = 0 && n.val = 0 then .finite (a && b) m
    else
      match (Binary64.finite a m).toRat?, (Binary64.finite b n).toRat? with
      | some p, some q => .ofRat (p + q)
      | _, _ => .nan
  | _, _ => .nan

/-- A value times a positive whole number, which is rounded first. -/
def timesWeight (x : Binary64) (weight : Nat) : Except Fault Binary64 :=
  match (Binary64.ofInt weight).toRat? with
  | none => .error .weight
  | some w =>
    .ok <| match x with
      | .finite negative code =>
        match (Binary64.finite false code).toRat? with
        | some p => if negative then opposite (.ofRat (p * w)) else .ofRat (p * w)
        | none => x
      | _ => x

/-- The number whose places in base sixty are given, the last one first and with its weight. -/
def ofPlaces (total : Binary64) (weight : Nat) : List Binary64 → Except Fault Binary64
  | [] => .ok total
  | place :: rest => do ofPlaces (plus total (← timesWeight place weight)) (60 * weight) rest

/-- The floating point number that a text without sign and underscores spells. -/
def unsignedFloat (t : Text) : Except Fault Binary64 :=
  if t = ".inf" then .ok (.infinite false)
  else if t = ".nan" then .ok .nan
  else
    match colonParts t with
    | _ :: _ :: _ => do ofPlaces (.ofInt 0) 1 (← (colonParts t).mapM readDecimal).reverse
    | _ => readDecimal t

/-- The floating point number that a text spells, in letters of either size. -/
def readFloat (t : Text) : Except Fault Binary64 := do
  let (negative, body) ← splitSign (withoutUnderscores t).lower
  let x ← unsignedFloat body
  return if negative then opposite x else x

end RhythmTree.Document.Yaml
