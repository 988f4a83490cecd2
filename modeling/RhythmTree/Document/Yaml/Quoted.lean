import RhythmTree.Document.Json.Lexeme
import RhythmTree.Document.Yaml.Fault
import RhythmTree.Document.Yaml.Mark
import RhythmTree.Text.Quoted

/-!
# Scalars between quotes

Between apostrophes every character stands for itself, and two apostrophes for one. Between double
quotes a backslash starts an escape: a letter for a control character, a code point in base sixteen,
or a line break that is taken out together with the blanks after it. A code point may be a
surrogate, which stands alone even beside another one.
-/

namespace RhythmTree.Document.Yaml

/-- The character that a one-letter escape stands for. -/
def simpleEscape? : Char → Option Char
  | '0' => some (Char.ofNat 0)
  | 'a' => some (Char.ofNat 7)
  | 'b' => some (Char.ofNat 8)
  | 't' => some '\t'
  | '\t' => some '\t'
  | 'n' => some '\n'
  | 'v' => some (Char.ofNat 11)
  | 'f' => some (Char.ofNat 12)
  | 'r' => some '\r'
  | 'e' => some (Char.ofNat 27)
  | ' ' => some ' '
  | '"' => some '"'
  | '\\' => some '\\'
  | '/' => some '/'
  | 'N' => some (Char.ofNat 0x85)
  | '_' => some (Char.ofNat 0xA0)
  | 'L' => some (Char.ofNat 0x2028)
  | 'P' => some (Char.ofNat 0x2029)
  | _ => none

/-- The number of digits of a hexadecimal escape. -/
def hexWidth? : Char → Option Nat
  | 'x' => some 2
  | 'u' => some 4
  | 'U' => some 8
  | _ => none

/-- Where a reader of a scalar between quotes stands. -/
inductive QuotedPosition
  /-- After a gap. -/
  | inside (gap : Gap)
  /-- After an apostrophe that ends the scalar unless another one follows. -/
  | closing
  /-- After a backslash. -/
  | escape
  /-- Inside a hexadecimal escape, with the number of digits to come after the next. -/
  | hex (value remaining : Nat)

/-- A part of a scalar in front of what follows. -/
def before (part : List Char) (following : Except Fault (List Text.Symbol × Remainder)) :
    Except Fault (List Text.Symbol × Remainder) :=
  following.map fun (symbols, remainder) => (part.map .char ++ symbols, remainder)

/-- The rest of a scalar between quotes, from a position on. -/
def quotedFrom (mark : Char) (m : Mark) :
    QuotedPosition → List Char → Except Fault (List Text.Symbol × Remainder)
  | .closing, [] => .ok ([], ⟨m, [], false⟩)
  | _, [] => .error .unfinished
  | .inside gap, c :: cs =>
    if c = ' ' || c = '\t' then quotedFrom mark (m.after c) (.inside (gap.blank c)) cs
    else if isBreak c then
      if beginsWithMarker cs then .error .malformed
      else quotedFrom mark (m.after c) (.inside (gap.break_ c)) cs
    else if c = mark then
      before gap.folded <|
        if mark = '"' then .ok ([], ⟨m.after c, cs, false⟩)
        else quotedFrom mark (m.after c) .closing cs
    else if c = '\\' && mark = '"' then
      before gap.folded (quotedFrom mark (m.after c) .escape cs)
    else before (gap.folded ++ [c]) (quotedFrom mark (m.after c) (.inside .none) cs)
  | .closing, c :: cs =>
    if c = mark then before [c] (quotedFrom mark (m.after c) (.inside .none) cs)
    else .ok ([], ⟨m, c :: cs, false⟩)
  | .escape, c :: cs =>
    if isBreak c then
      if beginsWithMarker cs then .error .malformed
      else quotedFrom mark (m.after c) (.inside { joined := true }) cs
    else
      match simpleEscape? c, hexWidth? c with
      | some plain, _ => before [plain] (quotedFrom mark (m.after c) (.inside .none) cs)
      | none, some width => quotedFrom mark (m.after c) (.hex 0 (width - 1)) cs
      | none, none => .error .malformed
  | .hex value remaining, c :: cs =>
    match Json.hexDigit? c, remaining with
    | none, _ => .error .malformed
    | some digit, left + 1 => quotedFrom mark (m.after c) (.hex (16 * value + digit) left) cs
    | some digit, 0 =>
      let code := 16 * value + digit
      if 0x80000000 ≤ code then .error .codePointSize
      else if 0x110000 ≤ code then .error .codePoint
      else
        (quotedFrom mark (m.after c) (.inside .none) cs).map fun (symbols, remainder) =>
          (Text.Symbol.ofCode code :: symbols, remainder)

end RhythmTree.Document.Yaml
