import RhythmTree.Document.Yaml.Fault
import RhythmTree.Document.Yaml.Mark

/-!
# Scalars set out in lines

A bar or an angle bracket announces a scalar that takes the lines below it, as far as they stand in
one column to the right of the block around. After a bar the lines stay lines; after an angle
bracket a single line break between lines that do not start with a blank becomes a blank. A sign in
the announcement says whether the line breaks at the end are kept or dropped, a digit says how far
to the right the lines stand.
-/

namespace RhythmTree.Document.Yaml

/-- What becomes of the line breaks at the end of a scalar. -/
inductive Chomping
  /-- The last line ends with a line break. -/
  | clip
  | drop
  | keep
  deriving DecidableEq, Repr

/-- What a sign says about the line breaks at the end. -/
def Chomping.ofSign? : Char → Option Chomping
  | '-' => some .drop
  | '+' => some .keep
  | _ => none

/-- A digit that says how far to the right the lines of a scalar stand. -/
def shiftOf? (c : Char) : Option Nat :=
  if c.isDigit then some (c.toNat - 48) else none

/-- The sign and the digit of an announcement, in either order, and the text after them. -/
def announcement : List Char → Chomping × Option Nat × List Char
  | [] => (.clip, none, [])
  | c :: cs =>
    match Chomping.ofSign? c, shiftOf? c with
    | some chomping, _ =>
      match cs with
      | d :: rest => if d.isDigit then (chomping, shiftOf? d, rest) else (chomping, none, cs)
      | [] => (chomping, none, [])
    | none, some shift =>
      match cs with
      | d :: rest =>
        match Chomping.ofSign? d with
        | some chomping => (chomping, some shift, rest)
        | none => (.clip, some shift, cs)
      | [] => (.clip, some shift, [])
    | none, none => (.clip, none, c :: cs)

/-- The text after the blanks and the comment that may end the line of an announcement. -/
def lineEnd? (cs : List Char) : Option (List Char) :=
  if !isEnd cs.head? || cs.head? = some '\t' then none
  else
    match cs.dropWhile (· = ' ') with
    | '#' :: rest => some (rest.dropWhile fun c => !isBreak c)
    | c :: rest => if isBreak c then some (c :: rest) else none
    | [] => some []

/-- The position and the text after a line break, if one comes next. -/
def nextLine (m : Mark) : List Char → Mark × List Char
  | [] => (m, [])
  | c :: cs => (m.after c, cs)

/-- The line breaks up to the next line with something in it, the greatest column that blanks on
the way reach, and what follows. -/
def openingLines (greatest : Nat) (m : Mark) : List Char → List Char × Nat × Mark × List Char
  | [] => ([], greatest, m, [])
  | c :: cs =>
    if c = ' ' then openingLines (max greatest (m.column + 1)) (m.after c) cs
    else if isBreak c then
      let (breaks, after) := openingLines greatest (m.after c) cs
      (keptBreak c :: breaks, after)
    else ([], greatest, m, c :: cs)

/-- The line breaks up to the next line with something in it, whose blanks are skipped up to a
column, and what follows. -/
def emptyLines (column : Nat) (m : Mark) : List Char → List Char × Mark × List Char
  | [] => ([], m, [])
  | c :: cs =>
    if c = ' ' && m.column < column then emptyLines column (m.after c) cs
    else if isBreak c then
      let (breaks, after) := emptyLines column (m.after c) cs
      (keptBreak c :: breaks, after)
    else ([], m, c :: cs)

/-- The lines of a scalar as far as they have been read. -/
structure Lines where
  text : List Char
  /-- The line break after the last line, if there is one. -/
  ending : List Char
  /-- The line breaks after that. -/
  breaks : List Char
  mark : Mark
  rest : List Char

/-- A line that does not start with a blank. -/
def isFlush (cs : List Char) : Bool := cs.head?.all fun c => c ≠ ' ' && c ≠ '\t'

/-- What stands between two lines, the second of which comes after some line breaks. -/
def between (folded : Bool) (line next : List Char) (ending : Char) (breaks : List Char) :
    List Char :=
  if folded && keptBreak ending = '\n' && isFlush line && isFlush next then
    if breaks.isEmpty then [' '] else []
  else [keptBreak ending]

/-- The lines in a column, after some line breaks. -/
def linesFrom (folded : Bool) (column : Nat) :
    Nat → List Char → Mark → List Char → Lines
  | 0, breaks, m, cs => ⟨[], [], breaks, m, cs⟩
  | fuel + 1, breaks, m, cs =>
    if m.column ≠ column || cs.isEmpty then ⟨[], [], breaks, m, cs⟩
    else
      let line := cs.takeWhile fun c => !isBreak c
      let atEnd := m.afterAll line
      match cs.dropWhile fun c => !isBreak c with
      | [] => ⟨breaks ++ line, [], [], atEnd, []⟩
      | ending :: following =>
        let (skipped, next, rest) := emptyLines column (atEnd.after ending) following
        if next.column ≠ column || rest.isEmpty then
          ⟨breaks ++ line, [keptBreak ending], skipped, next, rest⟩
        else
          let more := linesFrom folded column fuel skipped next rest
          { more with
            text := breaks ++ line ++ between folded line rest ending skipped ++ more.text }

/-- The text of a scalar with the line breaks at its end. -/
def Lines.chomped (lines : Lines) : Chomping → List Char
  | .drop => lines.text
  | .clip => lines.text ++ lines.ending
  | .keep => lines.text ++ lines.ending ++ lines.breaks

/-- The text of a scalar that the character before a position has announced. Its lines reach a
column at least. -/
def literal (folded : Bool) (least : Nat) (m : Mark) (cs : List Char) :
    Except Fault (List Char × Remainder) :=
  let (chomping, shift, header) := announcement cs
  match shift, lineEnd? header with
  | some 0, _ => .error .malformed
  | _, none => .error .malformed
  | shift, some ending =>
    let (start, body) := nextLine (m.afterAll (cs.take (cs.length - ending.length))) ending
    let lines := match shift with
      | some shift =>
        let column := least + shift - 1
        let (breaks, next, rest) := emptyLines column start body
        linesFrom folded column (rest.length + 1) breaks next rest
      | none =>
        let (breaks, greatest, next, rest) := openingLines 0 start body
        linesFrom folded (max least greatest) (rest.length + 1) breaks next rest
    .ok (lines.chomped chomping, ⟨lines.mark, lines.rest, true⟩)

end RhythmTree.Document.Yaml
