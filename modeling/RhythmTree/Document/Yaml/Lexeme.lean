import RhythmTree.Document.Yaml.Literal
import RhythmTree.Document.Yaml.Plain
import RhythmTree.Document.Yaml.Quoted
import RhythmTree.Document.Yaml.Source
import RhythmTree.Document.Yaml.Tag

/-!
# Lexemes of YAML

A YAML text as a sequence of marks and scalars. The columns in which things stand become marks of
their own: a block opens where something stands further to the right than the block around, and it
closes where something stands further to the left.

Whether a scalar or a collection in brackets is the name of a field is known only at the colon after
it. So every place where a name may start is a candidate, and a colon puts the mark of a name in
front of the candidate. A candidate lasts to the end of its line, and for 1024 characters.

The lexemes of a text come to light one after the other. A fault is met only after those that stand
before it, but those after a candidate wait until it is known whether it is a name.
-/

namespace RhythmTree.Document.Yaml

/-- A mark or a scalar. -/
inductive Lexeme
  /-- A line in front of a document. -/
  | directive (directive : Directive)
  /-- The start of a document. -/
  | documentStart
  /-- The end of a document. -/
  | documentEnd
  /-- The end of the text. -/
  | textEnd
  | openBlockList
  | openBlockRecord
  /-- The end of a block list or record. -/
  | closeBlock
  /-- The dash before an item. -/
  | dash
  /-- What follows is the name of a field. -/
  | name
  /-- What follows is the value of a field. -/
  | value
  | openList
  | closeList
  | openRecord
  | closeRecord
  | comma
  /-- A name for the node that follows. -/
  | anchor (name : List Char)
  /-- The node that has got a name. -/
  | reference (name : List Char)
  /-- A tag for the node that follows. -/
  | tag (tag : Tag)
  /-- A scalar without quotes, whose text decides what it means. -/
  | plain (text : List Char)
  /-- A scalar that is a text. -/
  | text (value : Text)
  deriving DecidableEq, Repr

/-- A place where the name of a field may start. -/
structure Candidate where
  /-- The position of the place. -/
  mark : Mark
  /-- The number of lexemes before the place. -/
  place : Nat
  /-- Nothing but a name can stand there. -/
  required : Bool
  deriving DecidableEq, Repr

/-- A candidate that has come to its end at a position. -/
def Candidate.isStale (candidate : Candidate) (m : Mark) : Bool :=
  candidate.mark.line ≠ m.line || candidate.mark.index + 1024 < m.index

/-- How far the lexemes of a text have been read. -/
structure Lexing where
  /-- The position that has been reached. -/
  mark : Mark
  /-- What is left of the text. -/
  rest : List Char
  /-- The columns of the blocks that are open, the innermost first. -/
  columns : List Nat
  /-- The candidate inside the innermost bracket. -/
  candidate : Option Candidate
  /-- The candidates outside of each bracket that is open, the innermost first. -/
  outer : List (Option Candidate)
  /-- The name of a field may come next. -/
  nameAllowed : Bool
  /-- The lexemes so far, in reverse. -/
  lexemes : List Lexeme
  /-- The number of lexemes so far. -/
  count : Nat
  deriving Repr

namespace Lexing

/-- Nothing has been read of a text. -/
def ofText (cs : List Char) : Lexing :=
  ⟨{}, cs, [], none, [], true, [], 0⟩

/-- The position is inside of brackets. -/
def inFlow (s : Lexing) : Bool := !s.outer.isEmpty

/-- The column that the blocks inside of the innermost one have to stand in at least. -/
def least (s : Lexing) : Nat :=
  match s.columns with
  | [] => 0
  | column :: _ => column + 1

/-- One more lexeme. -/
def emit (s : Lexing) (lexeme : Lexeme) : Lexing :=
  { s with lexemes := lexeme :: s.lexemes, count := s.count + 1 }

/-- A lexeme in front of those that come after a place. -/
def insert (s : Lexing) (place : Nat) (lexeme : Lexeme) : Lexing :=
  let later := s.count - place
  { s with
    lexemes := s.lexemes.take later ++ lexeme :: s.lexemes.drop later
    count := s.count + 1 }

/-- Some characters have been read. -/
def pass (s : Lexing) (n : Nat) : Lexing :=
  { s with mark := s.mark.afterAll (s.rest.take n), rest := s.rest.drop n }

/-- A part of the text has been read. -/
def passTo (s : Lexing) (r : Remainder) : Lexing := { s with mark := r.mark, rest := r.rest }

/-- A name may come next, or not. -/
def allowing (s : Lexing) (allowed : Bool) : Lexing := { s with nameAllowed := allowed }

/-- A block in a column, unless the innermost one is as far to the right. -/
def openBlock (s : Lexing) (lexeme : Lexeme) (place column : Nat) : Lexing :=
  if s.least ≤ column then { s.insert place lexeme with columns := column :: s.columns } else s

/-- The blocks to the right of a column are closed. -/
def closeBlocks (s : Lexing) (isRight : Nat → Bool) : Lexing :=
  if s.inFlow then s
  else
    let closed := (s.columns.takeWhile isRight).map fun _ => Lexeme.closeBlock
    { s with
      columns := s.columns.dropWhile isRight
      lexemes := closed ++ s.lexemes
      count := s.count + closed.length }

/-- The candidate was no name. -/
def forget (s : Lexing) : Except Fault Lexing :=
  if s.candidate.any (·.required) then .error .malformed else .ok { s with candidate := none }

/-- The position is a candidate, if a name may come next. -/
def remember (s : Lexing) : Except Fault Lexing :=
  if s.nameAllowed then
    s.forget.map fun s =>
      let required := !s.inFlow && s.columns.head? = some s.mark.column
      { s with candidate := some ⟨s.mark, s.count, required⟩ }
  else .ok s

/-- Candidates that have come to their end are forgotten. -/
def dropStale (s : Lexing) : Except Fault Lexing :=
  let isOver (candidate : Option Candidate) : Bool := candidate.any (·.isStale s.mark)
  let fresh (candidate : Option Candidate) : Option Candidate :=
    candidate.filter fun c => !c.isStale s.mark
  if (s.candidate :: s.outer).any fun c => isOver c && c.any (·.required) then .error .malformed
  else .ok { s with candidate := fresh s.candidate, outer := s.outer.map fresh }

/-- Blanks, comments and line breaks up to the next lexeme, with or without being inside of a
comment. Outside of brackets a name may come after a line break. -/
def skip (inComment : Bool) (s : Lexing) : List Char → Lexing
  | [] => { s with rest := [] }
  | c :: cs =>
    let next := { s with mark := s.mark.after c }
    if isBreak c then skip false (next.allowing (s.nameAllowed || !s.inFlow)) cs
    else if inComment || c = ' ' || c = '#' then skip (inComment || c = '#') next cs
    else { s with rest := c :: cs }

/-- A mark that stands alone at the start of a line. -/
def markDocument (s : Lexing) (lexeme : Lexeme) : Except Fault Lexing :=
  (s.closeBlocks fun _ => true).forget.map fun s => ((s.emit lexeme).pass 3).allowing false

/-- An opening bracket. -/
def openFlow (s : Lexing) (lexeme : Lexeme) : Except Fault Lexing :=
  s.remember.map fun s =>
    let s := ((s.emit lexeme).pass 1).allowing true
    { s with candidate := none, outer := s.candidate :: s.outer }

/-- A closing bracket. -/
def closeFlow (s : Lexing) (lexeme : Lexeme) : Except Fault Lexing :=
  match s.outer with
  | [] => .error .malformed
  | candidate :: outer =>
    .ok { ((s.emit lexeme).pass 1).allowing false with candidate := candidate, outer := outer }

/-- A comma. -/
def separate (s : Lexing) : Except Fault Lexing :=
  s.forget.map fun s => ((s.emit .comma).pass 1).allowing true

/-- A mark that may open a block and stands in front of an item, a name or a value. -/
def announce (s : Lexing) (block mark : Lexeme) (allowed : Bool) : Except Fault Lexing :=
  if !s.inFlow && !s.nameAllowed then .error .malformed
  else
    let s := if s.inFlow then s else s.openBlock block s.count s.mark.column
    s.forget.map fun s => ((s.emit mark).pass 1).allowing allowed

/-- A colon. The candidate becomes the name in front of it. -/
def colon (s : Lexing) : Except Fault Lexing :=
  match s.candidate with
  | none => s.announce .openBlockRecord .value (!s.inFlow)
  | some c =>
    let s := { s.insert c.place .name with candidate := none }
    let s := if s.inFlow then s else s.openBlock .openBlockRecord c.place c.mark.column
    .ok (((s.emit .value).pass 1).allowing false)

/-- A scalar set out in lines. -/
def block (s : Lexing) (folded : Bool) : Except Fault Lexing := do
  let s ← s.forget
  let (lines, r) ← literal folded (max 1 s.least) (s.pass 1).mark (s.pass 1).rest
  return ((s.emit (.text (.ofChars lines))).passTo r).allowing true

/-- A scalar between quotes. -/
def quoted (s : Lexing) (mark : Char) : Except Fault Lexing := do
  let s ← s.remember
  let (symbols, r) ← quotedFrom mark (s.pass 1).mark (.inside .none) (s.pass 1).rest
  return ((s.emit (.text ⟨symbols⟩)).passTo r).allowing false

/-- A scalar without quotes. -/
def plain (s : Lexing) : Except Fault Lexing :=
  s.remember.map fun s =>
    let (cs, r) := plainFrom s.inFlow s.least s.mark .none s.rest
    ((s.emit (.plain cs)).passTo r).allowing r.broken

/-- The end of the name of an anchor. -/
def endsAnchor (next : Option Char) : Bool :=
  isEnd next || next.any fun c =>
    c = '?' || c = ':' || c = ',' || c = ']' || c = '\x7d' || c = '%' || c = '@' || c = '\x60'

/-- An anchor or an alias. -/
def anchored (s : Lexing) (make : List Char → Lexeme) : Except Fault Lexing := do
  let s ← s.remember
  let name := (s.rest.drop 1).takeWhile isWordChar
  let s := ((s.emit (make name)).pass (name.length + 1)).allowing false
  if name.isEmpty || !endsAnchor s.rest.head? then .error .malformed else .ok s

/-- A tag. -/
def tagged (s : Lexing) : Except Fault Lexing := do
  let s ← s.remember
  match Tag.read? s.rest with
  | some (tag, after) =>
    return ((s.emit (.tag tag)).pass (s.rest.length - after.length)).allowing false
  | none => .error .malformed

/-- A directive. -/
def direct (s : Lexing) : Except Fault Lexing := do
  let s ← (s.closeBlocks fun _ => true).forget
  match Directive.read? s.rest with
  | some (directive, after) =>
    return ((s.emit (.directive directive)).pass (s.rest.length - after.length)).allowing false
  | none => .error .malformed

/-- The end of the text. -/
def finish (s : Lexing) : Except Fault Lexing :=
  (s.closeBlocks fun _ => true).forget.map fun s => s.emit .textEnd

/-- The mark that a bracket is. -/
def bracket? : Char → Option Lexeme
  | '[' => some .openList
  | ']' => some .closeList
  | '\x7b' => some .openRecord
  | '\x7d' => some .closeRecord
  | _ => none

/-- The lexeme that starts with a character. -/
def lexeme (s : Lexing) (c : Char) (next : Option Char) : Except Fault Lexing :=
  if s.mark.column = 0 && c = '%' then s.direct
  else if s.mark.column = 0 && beginsWithThree '-' s.rest then s.markDocument .documentStart
  else if s.mark.column = 0 && beginsWithThree '.' s.rest then s.markDocument .documentEnd
  else if c = ',' then s.separate
  else if c = '-' && isEnd next then s.announce .openBlockList .dash true
  else if c = '?' && (s.inFlow || isEnd next) then
    s.announce .openBlockRecord .name (!s.inFlow)
  else if c = ':' && (s.inFlow || isEnd next) then s.colon
  else if c = '&' then s.anchored .anchor
  else if c = '*' then s.anchored .reference
  else if c = '!' then s.tagged
  else if (c = '|' || c = '>') && !s.inFlow then s.block (c = '>')
  else if c = Text.apostrophe || c = '"' then s.quoted c
  else
    match bracket? c with
    | some .openList => s.openFlow .openList
    | some .openRecord => s.openFlow .openRecord
    | some closing => s.forget >>= (·.closeFlow closing)
    | none => if startsPlain s.inFlow c next then s.plain else .error .malformed

/-- One more lexeme, with the marks that its column brings. -/
def next (s : Lexing) : Except Fault Lexing := do
  let s ← (s.skip false s.rest).dropStale
  let s := s.closeBlocks (s.mark.column < ·)
  match s.rest with
  | [] => s.finish
  | c :: cs => s.lexeme c cs.head?

/-- One more lexeme of a text that may break off. The fault there comes to light as soon as the last
character is reached. -/
def nextBefore (fault : Option Fault) (s : Lexing) : Except Fault Lexing :=
  match s.next, fault with
  | .ok s, some fault => if (s.rest.drop 1).isEmpty then .error fault else .ok s
  | .error .unfinished, some fault => .error fault
  | result, _ => result

/-- The number of lexemes that are known whatever follows. -/
def settled (s : Lexing) : Nat :=
  (s.candidate :: s.outer).foldl
    (fun least candidate => min least ((candidate.map (·.place)).getD least)) s.count

/-- The text has been read to its end. -/
def isFinished (s : Lexing) : Bool := s.lexemes.head? = some .textEnd

end Lexing

/-- The lexemes of a text. -/
structure Lexemes where
  /-- The lexemes that come to light. -/
  lexemes : List Lexeme
  /-- The fault that is met after them. After the end of the text nothing is looked for. -/
  fault : Fault

namespace Lexing

/-- The first lexemes, before a fault. -/
def upTo (s : Lexing) (count : Nat) (fault : Fault) : Lexemes :=
  ⟨s.lexemes.reverse.take count, fault⟩

/-- The lexemes up to the end of a text, or up to the first fault. Of those so far a number has been
asked for. The bound is on the number of steps. -/
def run (fault : Option Fault) : Nat → Nat → Lexing → Lexemes
  | 0, known, s => s.upTo known .malformed
  | fuel + 1, known, s =>
    match s.dropStale with
    | .error found => s.upTo known found
    | .ok s =>
      match s.nextBefore fault with
      | .error found => s.upTo s.settled found
      | .ok after =>
        if after.isFinished then after.upTo after.count .malformed
        else run fault fuel s.settled after

end Lexing

/-- A text without the byte order mark in front. -/
def withoutMark : List Char → List Char
  | '\uFEFF' :: cs => cs
  | cs => cs

/-- The lexemes of a text. -/
def Source.lexemes (s : Source) : Lexemes :=
  (Lexing.ofText (withoutMark s.chars)).run s.fault (s.chars.length + 2) 0

end RhythmTree.Document.Yaml
