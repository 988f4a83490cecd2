import RhythmTree.Text.Blank

/-!
# Decimal digits

The decimal digits of every script: the characters of the Unicode category Nd. They come in runs
of ten that start with the digit zero, so a run is given by the code point of its zero.
-/

namespace RhythmTree.Text

/-- The code points of the digit zero of each script. -/
def digitZeros : List Nat :=
  [
    0x30, 0x660, 0x6F0, 0x7C0, 0x966, 0x9E6, 0xA66, 0xAE6, 0xB66, 0xBE6, 0xC66, 0xCE6, 0xD66,
    0xDE6, 0xE50, 0xED0, 0xF20, 0x1040, 0x1090, 0x17E0, 0x1810, 0x1946, 0x19D0, 0x1A80, 0x1A90,
    0x1B50, 0x1BB0, 0x1C40, 0x1C50, 0xA620, 0xA8D0, 0xA900, 0xA9D0, 0xA9F0, 0xAA50, 0xABF0,
    0xFF10, 0x104A0, 0x10D30, 0x11066, 0x110F0, 0x11136, 0x111D0, 0x112F0, 0x11450, 0x114D0,
    0x11650, 0x116C0, 0x11730, 0x118E0, 0x11950, 0x11C50, 0x11D50, 0x11DA0, 0x16A60, 0x16AC0,
    0x16B50, 0x1D7CE, 0x1D7D8, 0x1D7E2, 0x1D7EC, 0x1D7F6, 0x1E140, 0x1E2F0, 0x1E950, 0x1FBF0]

/-- The value of a decimal digit of any script. -/
def digitValue? (c : Char) : Option Nat :=
  if c.toNat < 0x80 then
    if c.isDigit then some (c.toNat - 48) else none
  else
    (digitZeros.find? fun start => start ≤ c.toNat && c.toNat ≤ start + 9).map (c.toNat - ·)

/-- A decimal digit of any script. -/
def isDecimal (c : Char) : Bool := (digitValue? c).isSome

/-- The most digits of a whole number in a bounded text. -/
def maxDigits : Nat := 4300

/-- The number that a run of digit values denotes in base ten. -/
def ofDigits (digits : List Nat) : Nat :=
  digits.foldl (fun total digit => 10 * total + digit) 0

/-- The values of the digits among some characters; any other character is passed over. -/
def digitValues (cs : List Char) : List Nat := cs.filterMap digitValue?

@[simp] theorem ofDigits_nil : ofDigits [] = 0 := rfl

@[simp] theorem digitValues_nil : digitValues [] = [] := rfl

end RhythmTree.Text
