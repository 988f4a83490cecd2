/-!
# Texts

A text is a sequence of symbols: characters, and surrogates that stand alone. Notations that write a
character as a pair of surrogates can also write one of the two without the other, so such a half is
a symbol of its own. A text without halves is a string, and the main statement says that going from
a string to its text and back loses nothing.
-/

namespace RhythmTree

/-- A symbol of a text. -/
inductive Text.Symbol
  /-- A character. -/
  | char (c : Char)
  /-- A half of a surrogate pair that stands alone, by its number among the surrogates. -/
  | half (number : Fin 2048)
  deriving DecidableEq, Repr

/-- A sequence of symbols. -/
structure Text where
  /-- The symbols from left to right. -/
  symbols : List Text.Symbol
  deriving DecidableEq, Repr

namespace Text

/-- The code point of a symbol. -/
def Symbol.code : Symbol → Nat
  | .char c => c.toNat
  | .half number => 0xD800 + number

/-- The symbol with a code point. -/
def Symbol.ofCode (n : Nat) : Symbol :=
  if h : 0xD800 ≤ n ∧ n < 0xE000 then .half ⟨n - 0xD800, by omega⟩ else .char (Char.ofNat n)

/-- The character that a symbol is. -/
def Symbol.char? : Symbol → Option Char
  | .char c => some c
  | .half _ => none

/-- Two code points that are the halves of one character, high and low. -/
def isPair (high low : Nat) : Bool :=
  0xD800 ≤ high && high < 0xDC00 && 0xDC00 ≤ low && low < 0xE000

/-- The character whose halves are two code points. -/
def ofPair (high low : Nat) : Char :=
  Char.ofNat (0x10000 + (high - 0xD800) * 0x400 + (low - 0xDC00))

/-- The text of some characters. -/
def ofChars (cs : List Char) : Text := ⟨cs.map .char⟩

/-- The text of a string. -/
def ofString (s : String) : Text := ofChars s.toList

instance : Coe String Text := ⟨ofString⟩

instance : Inhabited Text := ⟨⟨[]⟩⟩

instance : Append Text := ⟨fun a b => ⟨a.symbols ++ b.symbols⟩⟩

/-- A text comes before another one in the order of code points. -/
def isBefore (s t : Text) : Bool :=
  (s.symbols.map Symbol.code).lex (t.symbols.map Symbol.code) fun a b => a < b

/-- The characters of a text without halves. -/
def chars? (t : Text) : Option (List Char) := t.symbols.mapM Symbol.char?

/-- The string that a text without halves is. -/
def string? (t : Text) : Option String := t.chars?.map String.ofList

/-- The string that shows a text, with the replacement character for every half. -/
def display (t : Text) : String :=
  String.ofList (t.symbols.map fun symbol => symbol.char?.getD '\uFFFD')

theorem chars?_ofChars (cs : List Char) : (ofChars cs).chars? = some cs := by
  have mapM_char : ∀ cs : List Char, (cs.map Symbol.char).mapM Symbol.char? = some cs := by
    intro cs
    induction cs with
    | nil => rfl
    | cons c cs ih => simp [List.mapM_cons, Symbol.char?, ih]
  exact mapM_char cs

/-- A string comes back from its text. -/
@[simp] theorem string?_ofString (s : String) : (ofString s).string? = some s := by
  simp [string?, ofString, chars?_ofChars]

/-- A string shows as itself. -/
@[simp] theorem display_ofString (s : String) : (ofString s).display = s := by
  simp [display, ofString, ofChars, Symbol.char?, Function.comp_def]

/-- Two strings with one text are the same. -/
theorem ofString_injective {s t : String} (h : ofString s = ofString t) : s = t := by
  have := congrArg string? h
  simpa using this

end Text

end RhythmTree
