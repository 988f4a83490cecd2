import RhythmTree.Duration.Reader

/-!
# Bounded texts of durations

A whole number of more than 4300 digits is neither written as a text nor read from one. So a
duration whose numerator or denominator is longer has no text, and a text with a longer number in
it is no duration, whatever it denotes.

Only a duration that is written or read alone meets this bound. Everywhere else in the library whole
numbers have any number of digits: in messages, scores and documents, which show durations by
`Duration.text` and values by `Document.inline`, and in the readers of items of pairs, of JSON and of
YAML. Trees and data may be nested to any depth.
-/

namespace RhythmTree

namespace Text

/-- A digit, or an underscore as it may stand between digits. -/
def isGrouped (c : Char) : Bool := isDecimal c || c = '_'

/-- The runs of digits and underscores in a text, some of them empty. -/
def numerals (cs : List Char) : List (List Char) := cs.splitOnP fun c => !isGrouped c

/-- No number in a text is too long. Underscores are not counted, leading zeros are. -/
def isShort (t : Text) : Bool :=
  match t.chars? with
  | none => true
  | some cs => (numerals cs).all fun numeral => (digitValues numeral).length ≤ maxDigits

end Text

namespace Duration

/-- The text of a whole number. Its sign is not counted. -/
def writeInt (n : Int) : Except Error String :=
  if (Nat.toDigits 10 n.natAbs).length ≤ Text.maxDigits then .ok (toString n)
  else .error .tooManyDigits

/-- The text of a duration: its amount in lowest terms. -/
def write (d : Duration) : Except Error String := do
  let above ← writeInt d.value.num
  if d.value.den = 1 then return above
  return above ++ "/" ++ (← writeInt d.value.den)

/-- The text that shows a value to be a duration. -/
def writeInline (d : Duration) : Except Error String := do
  let above ← writeInt d.value.num
  if d.value.den = 1 then return "Duration(" ++ above ++ ")"
  return "Duration(Fraction(" ++ above ++ ", " ++ (← writeInt d.value.den) ++ "))"

/-- The duration that a text denotes. -/
def ofText (t : Text) : Except Error Duration :=
  if t.isShort then ofDocument (.text t) else .error (.malformed (.text t))

end Duration

end RhythmTree
