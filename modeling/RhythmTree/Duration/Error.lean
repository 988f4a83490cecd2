import RhythmTree.Document.Inline
import RhythmTree.Duration.Basic
import RhythmTree.Text.Digit

/-!
# Errors about durations

Why a value is no duration and why an operation on durations has no result, with the message for
each cause. Four categories tell the causes apart that callers treat differently: wrong values,
wrong types, numbers beyond every bound and divisions by zero.
-/

namespace RhythmTree.Duration

/-- Why there is no duration. -/
inductive Error
  /-- A value of a kind that denotes no duration. -/
  | notReadable (raw : Document)
  /-- A text or a pair that denotes no duration. -/
  | malformed (raw : Document)
  /-- An amount below zero. -/
  | negative (value : Rat)
  /-- A text that should be a whole number. -/
  | notInteger (text : Text)
  /-- Octets that should be a whole number. -/
  | octetsNotInteger (value : List UInt8)
  /-- A value that should be a whole number and is not a number. -/
  | nanAsInteger
  /-- A value that should be a whole number and is infinite. -/
  | infiniteAsInteger
  /-- A value that should be a whole number and is of another type. -/
  | typeAsInteger (typeName : String)
  /-- A text that should be a ratio. -/
  | notRatio (text : Text)
  /-- A value that should be a ratio and is not a number. -/
  | nanAsRatio
  /-- A value that should be a ratio and is infinite. -/
  | infiniteAsRatio
  /-- A value that should be a ratio and is of another type. -/
  | typeAsRatio
  /-- A ratio whose denominator is zero. -/
  | zeroDenominator (numerator : Int)
  /-- A difference below zero. -/
  | difference (minuend subtrahend : Duration)
  /-- Two operands that an arithmetic operator does not take. -/
  | unsupported (operator left right : String)
  /-- Two operands that have no order. -/
  | unordered (operator left right : String)
  /-- A text or a list times something that is no whole number. -/
  | repetition (right : String)
  /-- A text or a list joined to something of another type. -/
  | concatenation (left right : String)
  /-- An operand that cannot be a member of a set. -/
  | unhashable (typeName : String)
  /-- An amount too large for a floating point number. -/
  | tooLarge
  /-- A whole number with too many digits to be written. -/
  | tooManyDigits
  deriving Repr

/-- What kind of mistake an error is. -/
inductive Error.Category
  | value
  | type
  | overflow
  | zeroDivision
  deriving DecidableEq, Repr

namespace Error

/-- The category of an error. -/
def category : Error → Category
  | .infiniteAsInteger | .infiniteAsRatio | .tooLarge => .overflow
  | .typeAsInteger _ | .typeAsRatio | .unsupported _ _ _ | .unordered _ _ _ | .repetition _
  | .concatenation _ _ | .unhashable _ => .type
  | .zeroDenominator _ => .zeroDivision
  | .notReadable _ | .malformed _ | .negative _ | .notInteger _ | .octetsNotInteger _
  | .nanAsInteger | .notRatio _ | .nanAsRatio | .difference _ _ | .tooManyDigits => .value

/-- The message of an error. -/
def message : Error → String
  | .notReadable raw => "Cannot interpret " ++ raw.inline ++ " as a duration"
  | .malformed raw => "Invalid duration: " ++ raw.inline
  | .negative value => "Duration must be non-negative, got " ++ ratText value
  | .notInteger text => "invalid literal for int() with base 10: " ++ text.briefQuote
  | .octetsNotInteger value =>
    "invalid literal for int() with base 10: " ++ Text.quoteOctets value
  | .nanAsInteger => "cannot convert float NaN to integer"
  | .infiniteAsInteger => "cannot convert float infinity to integer"
  | .typeAsInteger typeName =>
    "int() argument must be a string, a bytes-like object or a real number, not '" ++ typeName ++
      "'"
  | .notRatio text => "Invalid literal for Fraction: " ++ text.quote
  | .nanAsRatio => "cannot convert NaN to integer ratio"
  | .infiniteAsRatio => "cannot convert Infinity to integer ratio"
  | .typeAsRatio => "argument should be a string or a Rational instance"
  | .zeroDenominator numerator => "Fraction(" ++ toString numerator ++ ", 0)"
  | .difference minuend subtrahend =>
    "Duration subtraction went negative: " ++ minuend.text ++ " - " ++ subtrahend.text
  | .unsupported operator left right =>
    "unsupported operand type(s) for " ++ operator ++ ": '" ++ left ++ "' and '" ++ right ++ "'"
  | .unordered operator left right =>
    "'" ++ operator ++ "' not supported between instances of '" ++ left ++ "' and '" ++ right ++ "'"
  | .repetition right => "can't multiply sequence by non-int of type '" ++ right ++ "'"
  | .concatenation left right =>
    "can only concatenate " ++ left ++ " (not \"" ++ right ++ "\") to " ++ left
  | .unhashable typeName => "unhashable type: '" ++ typeName ++ "'"
  | .tooLarge => "integer division result too large for a float"
  | .tooManyDigits =>
    "Exceeds the limit (" ++ toString Text.maxDigits ++ " digits) for integer string conversion; " ++
      "use sys.set_int_max_str_digits() to increase the limit"

end Error

end RhythmTree.Duration
