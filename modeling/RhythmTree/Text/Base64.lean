import RhythmTree.Text.Basic

/-!
# Base 64

Octets written in 64 characters of six bits each, four characters for three octets. A reader passes
over characters that do not belong, and an equals sign fills up an unfinished group; what follows a
group that has been filled up is not looked at.
-/

namespace RhythmTree.Text

/-- The six bits of a character. -/
def sixBits? (c : Char) : Option Nat :=
  let n := c.toNat
  if 65 ≤ n && n ≤ 90 then some (n - 65)
  else if 97 ≤ n && n ≤ 122 then some (n - 71)
  else if 48 ≤ n && n ≤ 57 then some (n + 4)
  else if c = '+' then some 62
  else if c = '/' then some 63
  else none

/-- The octets of the rest of a text, inside a group of which some characters have been read. What
these have left over is given with the number of equals signs after them. -/
def base64From (count left signs : Nat) : List Char → Option (List UInt8)
  | [] => if count = 0 then some [] else none
  | c :: cs =>
    if c = '=' then
      if count < 2 then base64From count left signs cs
      else if 4 ≤ count + signs + 1 then some []
      else base64From count left (signs + 1) cs
    else
      match sixBits? c, count with
      | none, _ => base64From count left signs cs
      | some bits, 0 => base64From 1 bits 0 cs
      | some bits, 1 =>
        (base64From 2 (bits % 16) 0 cs).map (UInt8.ofNat (4 * left + bits / 16) :: ·)
      | some bits, 2 =>
        (base64From 3 (bits % 4) 0 cs).map (UInt8.ofNat (16 * left + bits / 4) :: ·)
      | some bits, _ => (base64From 0 0 0 cs).map (UInt8.ofNat (64 * left + bits) :: ·)

/-- The octets that a text in ASCII spells. -/
def base64? (t : Text) : Option (List UInt8) :=
  match t.chars? with
  | some cs => if cs.all fun c => c.toNat < 0x80 then base64From 0 0 0 cs else none
  | none => none

end RhythmTree.Text
