import RhythmTree.Document.Moment
import RhythmTree.Text.Quoted
import RhythmTree.Text.Utf8

/-!
# Faults of YAML texts

Why a text holds no document. A text that is no YAML is one thing; a scalar that should be a number,
a truth value, a moment or a character and is none is another, because readers tell these apart by
category. After a fault of form, of the encoding or of a value a reader may go on with other texts;
all other faults come from a place where nothing of the kind was expected.
-/

namespace RhythmTree.Document.Yaml

/-- Why a text holds no document. -/
inductive Fault
  /-- The text is no YAML, or a node has a tag that does not fit. -/
  | malformed
  /-- The text ends inside of a scalar. -/
  | unfinished
  /-- The octets are no text. -/
  | undecodable (error : Text.Utf8Error)
  /-- A text should be a whole number in a base. -/
  | notWhole (base : Nat) (text : Text)
  /-- A text should be a floating point number. -/
  | notFloat (text : Text)
  /-- An empty text stands for a number. -/
  | noDigits
  /-- A text should be a truth value. -/
  | notTruth (text : Text)
  /-- A text should be a moment. -/
  | notMoment
  /-- A record stands for a moment. -/
  | recordAsMoment
  /-- A moment is not in the calendar. -/
  | calendar (fault : CalendarFault)
  /-- An escape names no code point. -/
  | codePoint
  /-- An escape names a number of more than 31 bits. -/
  | codePointSize
  /-- A place of a number in base sixty weighs more than any floating point number. -/
  | weight
  /-- A record that stands for a scalar holds itself in the place of that scalar. -/
  | endless
  deriving DecidableEq, Repr

/-- What kind of mistake a fault is. -/
inductive Fault.Category
  | form
  | encoding
  | value
  | emptiness
  | lookup
  | absence
  | type
  | size
  | depth
  deriving DecidableEq, Repr

namespace Fault

/-- The category of a fault. -/
def category : Fault → Category
  | .malformed | .unfinished => .form
  | .undecodable _ => .encoding
  | .notWhole _ _ | .notFloat _ | .calendar _ | .codePoint => .value
  | .noDigits => .emptiness
  | .notTruth _ => .lookup
  | .notMoment => .absence
  | .recordAsMoment => .type
  | .codePointSize | .weight => .size
  | .endless => .depth

/-- A reader may go on with other texts. -/
def isOrdinary (f : Fault) : Bool :=
  f.category = .form || f.category = .encoding || f.category = .value

/-- The message about a fault. -/
def message : Fault → String
  | .malformed => "not a YAML text"
  | .unfinished => "the YAML text ends inside of a scalar"
  | .undecodable error => error.message
  | .notWhole base t =>
    "invalid literal for int() with base " ++ toString base ++ ": " ++ t.briefQuote
  | .notFloat t => "could not convert string to float: " ++ t.quote
  | .noDigits => "string index out of range"
  | .notTruth t => t.quote
  | .notMoment => "'NoneType' object has no attribute 'groupdict'"
  | .recordAsMoment => "expected string or bytes-like object, got 'list'"
  | .calendar fault => fault.message
  | .codePoint => "chr() arg not in range(0x110000)"
  | .codePointSize => "Python int too large to convert to C int"
  | .weight => "int too large to convert to float"
  | .endless => "maximum recursion depth exceeded"

end Fault

end RhythmTree.Document.Yaml
