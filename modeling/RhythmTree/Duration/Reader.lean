import RhythmTree.Duration.Error
import RhythmTree.Text.Blank
import RhythmTree.Text.Numeral

/-!
# Reading durations

Streams write a duration as a whole number, as a text such as `3/16` or `1.5`, or as a pair of a
numerator and a denominator. The items of a pair are made whole numbers one by one, the denominator
first, so a floating point item loses its fraction. A lone floating point number is no duration.
Around a duration every blank is ignored, around an item of a pair white space alone.
-/

namespace RhythmTree.Duration

open Decimal (Binary64 tenTo)

/-- A numerator over a denominator that may be zero, as written. -/
structure Ratio where
  /-- The signed numerator. -/
  numerator : Int
  /-- The denominator. -/
  denominator : Nat
  deriving DecidableEq, Repr

/-- One or more digits of any script, with single underscores between digits. -/
def digits? : List Char → Option (List Nat) := Text.groupedDigits? Text.digitValue?

/-- A whole number times a power of ten. -/
def Ratio.ofDecimal (negative : Bool) (parts : Text.DecimalParts) : Ratio :=
  { numerator := Text.signed negative (parts.coefficient * tenTo parts.scale.toNat)
    denominator := tenTo (-parts.scale).toNat }

/-- The ratio that a text without blanks at its ends writes: a fraction or a decimal. -/
def Ratio.ofText? (cs : List Char) : Option Ratio :=
  let (negative, body) := Text.splitSign cs
  match Text.splitAtFirst (· = '/') body with
  | (front, some back) => do
    let numerator ← digits? front
    let denominator ← digits? back
    return ⟨Text.signed negative (Text.ofDigits numerator), Text.ofDigits denominator⟩
  | (_, none) => (Text.decimal? digits? body).map (Ratio.ofDecimal negative)

/-- The number that a ratio denotes. -/
def Ratio.value? (r : Ratio) : Option Rat :=
  if r.denominator = 0 then none else some (Rat.divInt r.numerator r.denominator)

/-- The duration with an amount. -/
def ofRat (q : Rat) : Except Error Duration :=
  match ofRat? q with
  | some d => .ok d
  | none => .error (.negative q)

/-- The duration that a text writes, blanks around it ignored. -/
def ofText? (t : Text) : Option Duration := do
  let ratio ← Ratio.ofText? (Text.trim Text.isBlank (← t.chars?))
  let value ← ratio.value?
  ofRat? value

/-- The whole number that a text writes, white space around it ignored. -/
def wholeOfText? (t : Text) : Option Int := do
  Text.wholeNumber? digits? (Text.trim Text.isSpace (← t.chars?))

/-- The text of octets, of which those beyond ASCII are no digits and no blanks. -/
def asciiText (value : List UInt8) : Text :=
  .ofChars (value.map fun octet => if octet < 0x80 then Char.ofNat octet.toNat else '?')

/-- The whole number that an item of a pair stands for. -/
def integer : Document → Except Error Int
  | .bool true => .ok 1
  | .bool false => .ok 0
  | .int n => .ok n
  | .float .nan => .error .nanAsInteger
  | .float (.infinite _) => .error .infiniteAsInteger
  | .float x => .ok (x.truncate?.getD 0)
  | .text t =>
    match wholeOfText? t with
    | some n => .ok n
    | none => .error (.notInteger t)
  | .octets value =>
    match wholeOfText? (asciiText value) with
    | some n => .ok n
    | none => .error (.octetsNotInteger value)
  | raw => .error (.typeAsInteger raw.typeName)

/-- The duration that a numerator over a denominator makes. -/
def ofPair (numerator denominator : Document) : Except Error Duration := do
  let below ← integer denominator
  if below = 0 then .error (.malformed (.list [numerator, denominator]))
  let above ← integer numerator
  ofRat (Rat.divInt above below)

/-- The duration that a piece of data denotes. -/
def ofDocument : Document → Except Error Duration
  | .int n => ofRat n
  | .text t =>
    match ofText? t with
    | some d => .ok d
    | none => .error (.malformed (.text t))
  | .list [numerator, denominator] => ofPair numerator denominator
  | .pair numerator denominator => ofPair numerator denominator
  | raw => .error (.notReadable raw)

/-- The letters `d` that stand where the digits behind the point of a decimal should be. They pass
for such digits at first, and turn out not to be a whole number only when they are read. -/
def letterFraction? (cs : List Char) : Option (List Char) := do
  let (_, body) := Text.splitSign cs
  let (mantissa, power) := Text.splitAtFirst (fun c => c = 'e' || c = 'E') body
  let (front, back) := Text.splitAtFirst (· = '.') mantissa
  let letters ← back
  let _ ← digits? front
  let _ ← (power.map (Text.wholeNumber? digits?)).getD (some 0)
  if !letters.isEmpty && letters.all fun c => c = 'd' || c = 'D' then some letters else none

/-- The rational number that a text writes, blanks around it ignored. -/
def ratOfText (t : Text) : Except Error Rat :=
  match t.chars?.map (Text.trim Text.isBlank) with
  | none => .error (.notRatio t)
  | some cs =>
    match Ratio.ofText? cs with
    | some ratio =>
      match ratio.value? with
      | some q => .ok q
      | none => .error (.zeroDenominator ratio.numerator)
    | none =>
      match letterFraction? cs with
      | some letters => .error (.notInteger (.ofChars letters))
      | none => .error (.notRatio t)

/-- The rational number that a plain value equals, floating point values taken exactly. -/
def exactRat : Document → Except Error Rat
  | .bool true => .ok 1
  | .bool false => .ok 0
  | .int n => .ok n
  | .float .nan => .error .nanAsRatio
  | .float (.infinite _) => .error .infiniteAsRatio
  | .float x => .ok (x.toRat?.getD 0)
  | .text t => ratOfText t
  | _ => .error .typeAsRatio

/-- The duration whose amount is exactly a plain value. -/
def ofExact (raw : Document) : Except Error Duration := exactRat raw >>= ofRat

/-- The floating point value nearest to a duration. -/
def toBinary64 (d : Duration) : Except Error Binary64 :=
  let x := Binary64.ofRat d.value
  if x.isFinite then .ok x else .error .tooLarge

end RhythmTree.Duration
