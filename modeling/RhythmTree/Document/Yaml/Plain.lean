import RhythmTree.Document.Yaml.Mark

/-!
# Scalars without quotes

A scalar without quotes goes on until something ends it: a colon before a blank, a comment, inside
brackets a bracket or a comma, a tab, or a line that does not stand further to the right than the
block around it.
-/

namespace RhythmTree.Document.Yaml

/-- Marks of flow lists and records. -/
def isFlowMark (c : Char) : Bool :=
  c = ',' || c = '[' || c = ']' || c = '\x7b' || c = '\x7d'

/-- Characters that have a meaning at the start of a lexeme. -/
def isIndicator (c : Char) : Bool :=
  isFlowMark c || c = '-' || c = '?' || c = ':' || c = '#' || c = '&' || c = '*' || c = '!' ||
    c = '|' || c = '>' || c = Char.ofNat 39 || c = '"' || c = '%' || c = '@' || c = '\x60'

/-- A character, with the one after it, starts a scalar without quotes. -/
def startsPlain (flow : Bool) (c : Char) (next : Option Char) : Bool :=
  !(isEnd (some c) || isIndicator c) ||
    (!isEnd next && (c = '-' || (!flow && (c = '?' || c = ':'))))

/-- A character, with the one after it, ends the scalar before it even without a gap. -/
def endsPlain (flow : Bool) (c : Char) (next : Option Char) : Bool :=
  c = '\t' || (c = ':' && (isEnd next || (flow && next.any isFlowMark))) ||
    (flow && (isFlowMark c || c = '?'))

/-- The rest of a scalar without quotes, after a gap. Outside of brackets its lines have to reach
a column. -/
def plainFrom (flow : Bool) (column : Nat) (m : Mark) (gap : Gap) :
    List Char → List Char × Remainder
  | [] => ([], ⟨m, [], gap.broken⟩)
  | c :: cs =>
    if c = ' ' then plainFrom flow column (m.after c) (gap.blank c) cs
    else if isBreak c then
      if beginsWithMarker cs then ([], ⟨m.after c, cs, true⟩)
      else plainFrom flow column (m.after c) (gap.break_ c) cs
    else if !gap.isNone && (c = '#' || (!flow && m.column < column)) then
      ([], ⟨m, c :: cs, gap.broken⟩)
    else if endsPlain flow c cs.head? then ([], ⟨m, c :: cs, gap.broken⟩)
    else
      let (more, remainder) := plainFrom flow column (m.after c) .none cs
      (gap.folded ++ c :: more, remainder)

end RhythmTree.Document.Yaml
