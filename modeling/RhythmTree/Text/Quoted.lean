import RhythmTree.Text.Basic
import RhythmTree.Text.Printable

/-!
# Quoted text

How messages show a text: between quotes, with the quote in use, the backslash, line feed, carriage
return and tab escaped, and every other symbol that does not print as a hexadecimal escape of two,
four or eight digits. Apostrophes are the usual quotes; double quotes serve a text that holds an
apostrophe and no double quote. Messages that have little room show only the beginning.
-/

namespace RhythmTree.Text

/-- The apostrophe. -/
def apostrophe : Char := Char.ofNat 39

/-- A number in base sixteen, in lower case, filled up with zeros to a width. -/
def hexDigits (width n : Nat) : List Char :=
  let digits := Nat.toDigits 16 n
  List.replicate (width - digits.length) '0' ++ digits

/-- The quote that surrounds a text. -/
def quoteMark (symbols : List Symbol) : Char :=
  if symbols.contains (.char apostrophe) && !symbols.contains (.char '"') then '"' else apostrophe

/-- A code point as a hexadecimal escape. -/
def codeEscape (n : Nat) : List Char :=
  if n < 0x100 then '\\' :: 'x' :: hexDigits 2 n
  else if n < 0x10000 then '\\' :: 'u' :: hexDigits 4 n
  else '\\' :: 'U' :: hexDigits 8 n

/-- One character between quotes. -/
def quotedChar (mark c : Char) : List Char :=
  if c = mark || c = '\\' then ['\\', c]
  else if c = '\n' then ['\\', 'n']
  else if c = '\r' then ['\\', 'r']
  else if c = '\t' then ['\\', 't']
  else if isPrintable c then [c]
  else codeEscape c.toNat

/-- One symbol between quotes; half a pair never prints. -/
def quotedSymbol (mark : Char) : Symbol → List Char
  | .char c => quotedChar mark c
  | .half number => codeEscape (Symbol.half number).code

/-- The text as messages show it. -/
def quote (t : Text) : String :=
  let mark := quoteMark t.symbols
  String.ofList (mark :: t.symbols.flatMap (quotedSymbol mark) ++ [mark])

/-- Octets as messages show them: those of ASCII as characters, all others as escapes. -/
def quoteOctets (octets : List UInt8) : String :=
  let symbols := octets.map fun octet => Symbol.char (Char.ofNat octet.toNat)
  let mark := quoteMark symbols
  let shown (octet : UInt8) : List Char :=
    if octet < 0x80 then quotedChar mark (Char.ofNat octet.toNat) else codeEscape octet.toNat
  String.ofList ('b' :: mark :: octets.flatMap shown ++ [mark])

/-- The number of characters in which a short message shows a text, quotes among them. -/
def briefWidth : Nat := 200

/-- The text as short messages show it, cut off after some characters. -/
def briefQuote (t : Text) : String := String.ofList ((quote t).toList.take briefWidth)

end RhythmTree.Text
