import RhythmTree.Decimal.Reader
import RhythmTree.Decimal.Whole
import RhythmTree.Duration.Reader
import RhythmTree.Schema.Checked
import RhythmTree.Text.Utf8
import RhythmTree.Token

/-!
# Checked scalars

Texts have to be texts, or octets that encode one. Numbers are taken in several spellings: truth
values count as one and zero, texts may spell a number with white space around it, whole numbers may
be floating point numbers without a fraction, and floating point numbers may be whole.
-/

namespace RhythmTree.Schema

open Decimal (Binary64 twoTo)

/-- The text that a text or octets are, if it is a string. -/
def string? : Document → Option (Option String)
  | .text t => some t.string?
  | .octets value => some (Text.decode value).toOption
  | _ => none

/-- A text. -/
def text : Document → Checked Text
  | .text s => .ok s
  | d =>
    match string? d with
    | none => .fail .notText
    | some none => .fail .notUnicode
    | some (some s) => .ok s

/-- A text or nothing. -/
def optionalText : Document → Checked (Option Text)
  | .null => .ok none
  | d => (text d).map some

/-- The whole number that a floating point number is; it has to fit into 64 bits. -/
def intOfFloat (x : Binary64) : Checked Int :=
  match x.truncate? with
  | none => .fail .notFinite
  | some n =>
    if !x.isWhole then .fail .intFraction
    else if n.natAbs < twoTo 63 then .ok n
    else .fail .intSize

/-- A whole number. -/
def int : Document → Checked Int
  | .int n => .ok n
  | .bool b => .ok (if b then 1 else 0)
  | .float x => intOfFloat x
  | d =>
    match string? d with
    | none => .fail .notInt
    | some none => .fail .notUnicode
    | some (some s) =>
      match Decimal.whole? s with
      | some n => .ok n
      | none => .fail .intText

/-- A level of indentation or nothing. -/
def optionalLevel : Document → Checked (Option Level)
  | .null => .ok none
  | d =>
    match int d with
    | .ok n =>
      match Level.ofInt? n with
      | some level => .ok (some level)
      | none => .fail .tooSmall
    | .invalid problems => .invalid problems
    | .aborted error => .aborted error

/-- A floating point number. A whole number has to be near a finite one; a text may be beyond all
of them. -/
def float : Document → Checked Binary64
  | .float x => .ok x
  | .int n => if (Binary64.ofInt n).isFinite then .ok (.ofInt n) else .fail .notFloat
  | .bool b => .ok (.ofInt (if b then 1 else 0))
  | d =>
    match string? d with
    | none => .fail .notFloat
    | some none => .fail .notUnicode
    | some (some s) =>
      match Binary64.ofText? s with
      | some x => .ok x
      | none => .fail .floatText

/-- A duration. Errors about wrong values are problems of the data; the others end the check. -/
def duration (d : Document) : Checked Duration :=
  match Duration.ofDocument d with
  | .ok value => .ok value
  | .error error =>
    match error.category with
    | .value => .fail (.duration error)
    | _ => .aborted error

end RhythmTree.Schema
