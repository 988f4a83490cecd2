/-!
# Moments

Days of the calendar, counted by the rules of today for all years from 1 to 9999, and times of day.
A time of day may say how far local time is ahead of universal time; two such times are the same
when they name one instant.
-/

namespace RhythmTree

/-- Why some numbers name no moment. -/
inductive CalendarFault
  | year (number : Nat)
  | month
  | day
  | hour
  | minute
  | second
  /-- Local time is a day or more apart from universal time, by a number of seconds. -/
  | offset (seconds : Int)
  deriving DecidableEq, Repr

/-- A length of time as messages show it. -/
def secondsText (seconds : Int) : String :=
  let days := seconds.fdiv 86400
  let rest := seconds.fmod 86400
  let parts := (if days = 0 then [] else ["days=" ++ toString days]) ++
    if rest = 0 then [] else ["seconds=" ++ toString rest]
  "datetime.timedelta(" ++ (if parts.isEmpty then "0" else ", ".intercalate parts) ++ ")"

/-- The words for a fault. -/
def CalendarFault.message : CalendarFault → String
  | .year number => "year " ++ toString number ++ " is out of range"
  | .month => "month must be in 1..12"
  | .day => "day is out of range for month"
  | .hour => "hour must be in 0..23"
  | .minute => "minute must be in 0..59"
  | .second => "second must be in 0..59"
  | .offset seconds =>
    "offset must be a timedelta strictly between -timedelta(hours=24) and timedelta(hours=24), " ++
      "not " ++ secondsText seconds ++ "."

/-- A day of the calendar. -/
structure Day where
  year : Nat
  month : Nat
  day : Nat
  deriving DecidableEq, Repr

namespace Day

/-- A year with a day more: every fourth, but of the hundredth years only every fourth. -/
def isLeap (year : Nat) : Bool := year % 4 = 0 && (year % 100 ≠ 0 || year % 400 = 0)

/-- The number of days in a month. -/
def daysIn (year month : Nat) : Nat :=
  if month = 2 then (if isLeap year then 29 else 28)
  else if month = 4 || month = 6 || month = 9 || month = 11 then 30
  else 31

/-- The day that three numbers name. -/
def ofNumbers (year month day : Nat) : Except CalendarFault Day :=
  if year < 1 || 9999 < year then .error (.year year)
  else if month < 1 || 12 < month then .error .month
  else if day < 1 || daysIn year month < day then .error .day
  else .ok ⟨year, month, day⟩

/-- The number of days before a month of a year. -/
def daysBefore (year : Nat) : Nat → Nat
  | 0 => 0
  | 1 => 0
  | month + 1 => daysBefore year month + daysIn year month

/-- The number of a day, the first day of the year 1 being the first. -/
def number (d : Day) : Nat :=
  let years := d.year - 1
  365 * years + years / 4 - years / 100 + years / 400 + daysBefore d.year d.month + d.day

end Day

/-- A time of day. -/
structure Clock where
  hour : Nat
  minute : Nat
  second : Nat
  /-- Millionths of a second. -/
  micro : Nat
  /-- How many seconds local time is ahead of universal time, if that is known. -/
  offset : Option Int
  deriving DecidableEq, Repr

namespace Clock

/-- A distance between local and universal time, which has to be less than a day. -/
def checkOffset (seconds : Int) : Except CalendarFault Int :=
  if seconds.natAbs < 86400 then .ok seconds else .error (.offset seconds)

/-- The time of day that some numbers name. -/
def ofNumbers (hour minute second micro : Nat) (offset : Option Int) :
    Except CalendarFault Clock :=
  if 23 < hour then .error .hour
  else if 59 < minute then .error .minute
  else if 59 < second then .error .second
  else .ok ⟨hour, minute, second, micro, offset⟩

end Clock

/-- A day, or a time of a day. -/
inductive Moment
  | day (day : Day)
  | time (day : Day) (clock : Clock)
  deriving DecidableEq, Repr

namespace Moment

/-- The name that messages give to the type of a moment. -/
def typeName : Moment → String
  | .day _ => "date"
  | .time _ _ => "datetime"

/-- What tells moments apart. -/
inductive Key
  | day (number : Nat)
  /-- A time whose distance from universal time is not known, in millionths of a second. -/
  | floating (micros : Int)
  /-- An instant, in millionths of a second of universal time. -/
  | instant (micros : Int)
  deriving DecidableEq, Repr

/-- What tells a moment from others. -/
def key : Moment → Key
  | .day d => .day d.number
  | .time d c =>
    let seconds : Int := 86400 * d.number + 3600 * c.hour + 60 * c.minute + c.second
    match c.offset with
    | none => .floating (1000000 * seconds + c.micro)
    | some offset => .instant (1000000 * (seconds - offset) + c.micro)

/-- A number in base ten, filled up with zeros to a width. -/
def padded (width n : Nat) : String :=
  let digits := Nat.toDigits 10 n
  String.ofList (List.replicate (width - digits.length) '0' ++ digits)

/-- The text of a day. -/
def dayText (d : Day) : String :=
  padded 4 d.year ++ "-" ++ padded 2 d.month ++ "-" ++ padded 2 d.day

/-- The text of a distance from universal time. -/
def offsetText (offset : Int) : String :=
  (if offset < 0 then "-" else "+") ++ padded 2 (offset.natAbs / 3600) ++ ":" ++
    padded 2 (offset.natAbs / 60 % 60)

/-- The text of a time of day. -/
def clockText (c : Clock) : String :=
  padded 2 c.hour ++ ":" ++ padded 2 c.minute ++ ":" ++ padded 2 c.second ++
    (if c.micro = 0 then "" else "." ++ padded 6 c.micro) ++ (c.offset.map offsetText).getD ""

/-- The text of a moment. -/
def text : Moment → String
  | .day d => dayText d
  | .time d c => dayText d ++ " " ++ clockText c

end Moment

end RhythmTree
