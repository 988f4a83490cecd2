import RhythmTree.Document.Json.Lexeme
import RhythmTree.Document.Yaml.Mark
import RhythmTree.Text.Utf8

/-!
# Tags and directives

A tag in front of a node says what the node means. It is given in full between angle brackets, or by
a handle and an ending, where the handle stands for the beginning; an exclamation mark alone says
that the text of the node decides. Directives in front of a document give handles their meaning and
name the version of the notation.
-/

namespace RhythmTree.Document.Yaml

/-- A tag as it is written. -/
structure Tag where
  /-- What stands for the beginning, if the tag is not given in full. -/
  handle : Option (List Char)
  /-- The ending, or the whole tag. -/
  ending : List Char
  deriving DecidableEq, Repr

/-- The tag of a node whose text decides what it means. -/
def Tag.open : Tag := ⟨none, ['!']⟩

/-- A line in front of a document. -/
inductive Directive
  /-- The version of the notation, of which the first number counts. -/
  | version (major : Nat)
  /-- What a handle stands for. -/
  | handle (handle beginning : List Char)
  /-- A line of another kind, which means nothing. -/
  | other
  deriving DecidableEq, Repr

/-- A letter, a digit, a dash or an underscore. -/
def isWordChar (c : Char) : Bool := c.isAlphanum || c = '-' || c = '_'

/-- A blank, a line break or the end of the text, but no tab. -/
def isGapOrEnd (next : Option Char) : Bool := next.all fun c => c = ' ' || isBreak c

/-- A character of a tag that stands for itself. -/
def isTagChar (c : Char) : Bool :=
  c.isAlphanum || ['-', ';', '/', '?', ':', '@', '&', '=', '+', '$', ',', '_', '.', '!', '~', '*',
    Char.ofNat 39, '(', ')', '[', ']'].contains c

/-- The characters that octets in reverse encode. -/
def escapedChars? (octets : List UInt8) : Option (List Char) :=
  ((Text.decode octets.reverse).toOption).map String.toList

/-- The longest part of a tag in front of a text, and the text after it. Octets that are written in
base sixteen behind percent signs spell characters; those read last are given in reverse. -/
def tagPart? (octets : List UInt8) : List Char → Option (List Char × List Char)
  | [] => (escapedChars? octets).map (·, [])
  | '%' :: rest =>
    match rest with
    | a :: b :: rest =>
      match Json.hexDigit? a, Json.hexDigit? b with
      | some high, some low => tagPart? (UInt8.ofNat (16 * high + low) :: octets) rest
      | _, _ => none
    | _ => none
  | c :: rest => do
    let front ← escapedChars? octets
    if isTagChar c then
      let (more, after) ← tagPart? [] rest
      return (front ++ c :: more, after)
    else return (front, c :: rest)

/-- The part of a tag in front of a text, which has one character at least. -/
def tagText? (cs : List Char) : Option (List Char × List Char) :=
  (tagPart? [] cs).filter fun (part, _) => !part.isEmpty

/-- A handle in front of a text: an exclamation mark, or a word between two of them. The mark alone
may stand only in front of a blank. -/
def handle? : List Char → Option (List Char × List Char)
  | '!' :: rest =>
    if rest.head? = some ' ' then some (['!'], rest)
    else
      match rest.dropWhile isWordChar with
      | '!' :: after => some ('!' :: rest.takeWhile isWordChar ++ ['!'], after)
      | _ => none
  | _ => none

/-- The tag in front of a text that starts with an exclamation mark, and the text after it. -/
def Tag.read? (cs : List Char) : Option (Tag × List Char) := do
  let rest := cs.drop 1
  let (tag, after) ←
    if rest.head? = some '<' then do
      let (ending, after) ← tagText? (rest.drop 1)
      match after with
      | '>' :: after => some (⟨none, ending⟩, after)
      | _ => none
    else if isEnd rest.head? then some (Tag.open, rest)
    else do
      let word := rest.takeWhile fun c => !isGapOrEnd (some c)
      let (handle, after) ← if word.contains '!' then handle? cs else some (['!'], rest)
      let (ending, after) ← tagText? after
      some (⟨some handle, ending⟩, after)
  if isGapOrEnd after.head? then some (tag, after) else none

/-- A number in front of a text, and the text after it. -/
def versionNumber? (cs : List Char) : Option (Nat × List Char) :=
  let digits := cs.takeWhile Char.isDigit
  if digits.isEmpty then none
  else some ((digits.filterMap Text.asciiDigit?).foldl (fun n digit => 10 * n + digit) 0,
    cs.drop digits.length)

/-- The version that a directive names, and the text after it. -/
def Directive.version? (cs : List Char) : Option (Directive × List Char) := do
  let (major, rest) ← versionNumber? (cs.dropWhile (· = ' '))
  match rest with
  | '.' :: rest =>
    let (_, after) ← versionNumber? rest
    if isGapOrEnd after.head? then some (.version major, after) else none
  | _ => none

/-- The handle that a directive explains, and the text after the directive. -/
def Directive.handle? (cs : List Char) : Option (Directive × List Char) := do
  let (mark, rest) ← Yaml.handle? (cs.dropWhile (· = ' '))
  if rest.head? ≠ some ' ' then none
  let (beginning, after) ← tagText? (rest.dropWhile (· = ' '))
  if isGapOrEnd after.head? then some (.handle mark beginning, after) else none

/-- The text after the blanks, the comment and the line break that may end a line. -/
def afterLine? (cs : List Char) : Option (List Char) :=
  let rest := cs.dropWhile (· = ' ')
  match if rest.head? = some '#' then rest.dropWhile fun c => !isBreak c else rest with
  | [] => some []
  | c :: after => if isBreak c then some after else none

/-- The directive in front of a text that starts with a percent sign, and the text of the lines
after it. -/
def Directive.read? (cs : List Char) : Option (Directive × List Char) := do
  let rest := cs.drop 1
  let word := rest.takeWhile isWordChar
  let rest := rest.drop word.length
  if word.isEmpty || !isGapOrEnd rest.head? then none
  let (directive, after) ← match String.ofList word with
    | "YAML" => Directive.version? rest
    | "TAG" => Directive.handle? rest
    | _ => some (.other, rest.dropWhile fun c => !isBreak c)
  (afterLine? after).map (directive, ·)

end RhythmTree.Document.Yaml
