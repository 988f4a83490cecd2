/-!
# Positions in a YAML text

Where a character stands, which characters end a line, and what the blanks and line breaks between
two parts of a scalar come to: inside a line blanks stay as they are; a single line break becomes a
blank, and of several the first one is dropped.
-/

namespace RhythmTree.Document.Yaml

/-- A character that ends a line. -/
def isBreak (c : Char) : Bool :=
  c = '\n' || c = Char.ofNat 0x85 || c = Char.ofNat 0x2028 || c = Char.ofNat 0x2029

/-- A line break as scalars keep it: next line counts as line feed. -/
def keptBreak (c : Char) : Char := if c = Char.ofNat 0x85 then '\n' else c

/-- A blank, a line break or the end of the text. -/
def isEnd (next : Option Char) : Bool :=
  next.all fun c => c = ' ' || c = '\t' || isBreak c

/-- A text that begins with three equal characters and goes on with a blank, or ends. -/
def beginsWithThree (mark : Char) : List Char → Bool
  | a :: b :: c :: rest => a = mark && b = mark && c = mark && isEnd rest.head?
  | _ => false

/-- A line that starts or ends a document, seen from its first character. -/
def beginsWithMarker (cs : List Char) : Bool := beginsWithThree '-' cs || beginsWithThree '.' cs

/-- Where a character stands in a text. -/
structure Mark where
  /-- The number of characters before it. -/
  index : Nat := 0
  /-- The number of lines before it. -/
  line : Nat := 0
  /-- The number of characters before it on its line, byte order marks aside. -/
  column : Nat := 0
  deriving DecidableEq, Repr

/-- The position after a character. -/
def Mark.after (m : Mark) (c : Char) : Mark :=
  if isBreak c then ⟨m.index + 1, m.line + 1, 0⟩
  else if c = '\uFEFF' then ⟨m.index + 1, m.line, m.column⟩
  else ⟨m.index + 1, m.line, m.column + 1⟩

/-- The position after some characters. -/
def Mark.afterAll (m : Mark) (cs : List Char) : Mark := cs.foldl Mark.after m

/-- Where the reading of a part of a text has come. -/
structure Remainder where
  /-- The position that has been reached. -/
  mark : Mark
  /-- What is left of the text. -/
  rest : List Char
  /-- A line break was the last thing before that position, blanks aside. -/
  broken : Bool

/-- Blanks and line breaks between two parts of a scalar. -/
structure Gap where
  /-- The blanks before the first line break, in reverse. -/
  blanks : List Char := []
  /-- The line breaks, in reverse. -/
  breaks : List Char := []
  /-- A line break before these has been taken out by a backslash. -/
  joined : Bool := false
  deriving Repr

namespace Gap

/-- No gap. -/
def none : Gap := {}

/-- There is nothing between two parts of a scalar. -/
def isNone (g : Gap) : Bool := g.blanks.isEmpty && g.breaks.isEmpty && !g.joined

/-- There is a line break between two parts of a scalar. -/
def broken (g : Gap) : Bool := !g.breaks.isEmpty

/-- The gap after one more blank; blanks at the start of a line do not count. -/
def blank (g : Gap) (c : Char) : Gap :=
  if g.breaks.isEmpty && !g.joined then { g with blanks := c :: g.blanks } else g

/-- The gap after one more line break. -/
def break_ (g : Gap) (c : Char) : Gap := { g with breaks := keptBreak c :: g.breaks }

/-- What a gap comes to. -/
def folded (g : Gap) : List Char :=
  if g.joined then g.breaks.reverse
  else
    match g.breaks.reverse with
    | [] => g.blanks.reverse
    | ['\n'] => [' ']
    | '\n' :: more => more
    | breaks => breaks

end Gap

end RhythmTree.Document.Yaml
