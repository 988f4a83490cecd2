import RhythmTree.Document.Basic

/-!
# Values as keys

When two values name the same thing: texts by their symbols, numbers by their amount, with truth
values as one and zero, moments by what tells them apart, octets and nothing as themselves.
Collections cannot be keys. A value that is not a number has no amount, so it is the same as another
one only where both are written in one notation.
-/

namespace RhythmTree.Document

/-- What a value is as a key. -/
inductive Key
  | null
  | number (value : Rat)
  | infinite (negative : Bool)
  | text (value : Text)
  | moment (value : Moment.Key)
  | octets (value : List UInt8)
  deriving DecidableEq

/-- The key that a value is. -/
def key? : Document → Option Key
  | .null => some .null
  | .bool b => some (.number (if b then 1 else 0))
  | .int n => some (.number n)
  | .float (.infinite negative) => some (.infinite negative)
  | .float x => x.toRat?.map .number
  | .text t => some (.text t)
  | .moment m => some (.moment m.key)
  | .octets value => some (.octets value)
  | _ => none

/-- Two values name the same thing. -/
def sameKey (a b : Document) : Bool := a.key?.any fun key => b.key? = some key

/-- A value that is not a number. -/
def isNan : Document → Bool
  | .float .nan => true
  | _ => false

/-- Two values of one notation name the same thing. -/
def sameName (a b : Document) : Bool := a.sameKey b || (a.isNan && b.isNan)

/-- A value that cannot be a key. -/
def isCollection : Document → Bool
  | .list _ | .pair _ _ | .set _ | .record _ | .ancestor _ => true
  | _ => false

theorem sameKey_comm (a b : Document) : a.sameKey b = b.sameKey a := by
  unfold sameKey
  cases a.key? <;> cases b.key? <;> simp [eq_comm]

end RhythmTree.Document
