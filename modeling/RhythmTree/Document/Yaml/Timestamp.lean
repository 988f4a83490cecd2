import RhythmTree.Document.Yaml.Fault
import RhythmTree.Text.Numeral

/-!
# Moments in YAML

A day is written with four, two and two digits. A time of a day comes after a letter or blanks; then
the month, the day and the hour may have one digit, and a fraction of a second and a distance from
universal time may follow. Where a tag says that a text is a moment, the month and the day may have
one digit in any case.
-/

namespace RhythmTree.Document.Yaml

/-- A run of digits whose number lies between two bounds: how many, what they spell, and the text
after them. -/
def digitRun? (least greatest : Nat) (cs : List Char) : Option (Nat × Nat × List Char) :=
  let run := cs.takeWhile Char.isDigit
  if least ≤ run.length && run.length ≤ greatest then
    some (run.length, Text.ofDigits (run.filterMap Text.asciiDigit?), cs.drop run.length)
  else none

/-- The text after a mark. -/
def after? (mark : Char) : List Char → Option (List Char)
  | c :: cs => if c = mark then some cs else none
  | [] => none

/-- A blank or a tab. -/
def isBlank (c : Char) : Bool := c = ' ' || c = '\t'

/-- The text after what stands between the day and the time. -/
def afterDay? : List Char → Option (List Char)
  | c :: cs =>
    if c = 'T' || c = 't' then some cs
    else if isBlank c then some (cs.dropWhile isBlank)
    else none
  | [] => none

/-- The millionths in a fraction of a second, and the text after it. -/
def fraction : List Char → Nat × List Char
  | '.' :: cs =>
    let run := cs.takeWhile Char.isDigit
    let digits := (run.filterMap Text.asciiDigit?).take 6
    (Text.ofDigits (digits ++ List.replicate (6 - digits.length) 0), cs.drop run.length)
  | cs => (0, cs)

/-- The distance from universal time, in seconds, that fills the rest of a scalar. -/
def zone? (cs : List Char) : Option (Option Int) :=
  let sign? (c : Char) : Option Bool :=
    if c = '-' then some true else if c = '+' then some false else none
  match cs, cs.dropWhile isBlank with
  | [], _ => some none
  | _, ['Z'] => some (some 0)
  | _, sign :: digits => do
    let negative ← sign? sign
    let (_, hours, rest) ← digitRun? 1 2 digits
    match rest with
    | [] => some (some (Text.signed negative (3600 * hours)))
    | colon :: rest =>
      let (_, minutes, rest) ← if colon = ':' then digitRun? 2 2 rest else none
      if rest.isEmpty then some (some (Text.signed negative (3600 * hours + 60 * minutes)))
      else none
  | _, [] => none

/-- The numbers in the text of a moment. -/
structure MomentText where
  year : Nat
  month : Nat
  day : Nat
  /-- The month and the day have two digits each. -/
  isFull : Bool
  /-- The hour, the minute, the second, the millionths and the distance from universal time. -/
  clock : Option (Nat × Nat × Nat × Nat × Option Int)

/-- The numbers in a text that is written like a moment. -/
def MomentText.ofChars? (cs : List Char) : Option MomentText := do
  let (_, year, rest) ← digitRun? 4 4 cs
  let (monthWidth, month, rest) ← (after? '-' rest).bind (digitRun? 1 2)
  let (dayWidth, day, rest) ← (after? '-' rest).bind (digitRun? 1 2)
  let isFull := monthWidth = 2 && dayWidth = 2
  if rest.isEmpty then some ⟨year, month, day, isFull, none⟩
  else
    let (_, hour, rest) ← (afterDay? rest).bind (digitRun? 1 2)
    let (_, minute, rest) ← (after? ':' rest).bind (digitRun? 2 2)
    let (_, second, rest) ← (after? ':' rest).bind (digitRun? 2 2)
    let (micro, rest) := fraction rest
    let offset ← zone? rest
    some ⟨year, month, day, isFull, some (hour, minute, second, micro, offset)⟩

/-- The moment that the numbers in a text name. The distance from universal time is looked at
first. -/
def MomentText.moment (m : MomentText) : Except CalendarFault Moment :=
  match m.clock with
  | none => (Day.ofNumbers m.year m.month m.day).map .day
  | some (hour, minute, second, micro, offset) => do
    let offset ← offset.mapM Clock.checkOffset
    let date ← Day.ofNumbers m.year m.month m.day
    let clock ← Clock.ofNumbers hour minute second micro offset
    return .time date clock

/-- A text is written like a moment. -/
def isMoment (cs : List Char) : Bool :=
  (MomentText.ofChars? cs).any fun m => m.isFull || m.clock.isSome

/-- A text without the line feed that may end it. -/
def withoutLastBreak (cs : List Char) : List Char :=
  if cs.getLast? = some '\n' then cs.dropLast else cs

/-- The moment that a text spells. -/
def readMoment (t : Text) : Except Fault Moment :=
  match (t.chars?.map withoutLastBreak).bind MomentText.ofChars? with
  | some m => m.moment.mapError .calendar
  | none => .error .notMoment

end RhythmTree.Document.Yaml
