import RhythmTree.Document.Key
import RhythmTree.Duration.Reader

/-!
# Operators on durations

Arithmetic and order for operands that need not be durations. Durations are added to, subtracted
from and compared with durations; they are multiplied by whole numbers and ratios on either side
and divided by whole numbers. Truth values count as the whole numbers one and zero. Every other
combination is a type error that names the types of both operands.
-/

namespace RhythmTree.Duration

/-- What an operator is applied to. -/
inductive Operand
  | duration (d : Duration)
  | ratio (q : Rat)
  | plain (value : Document)

namespace Operand

/-- The name that messages give to the type of an operand. -/
def typeName : Operand → String
  | .duration _ => "Duration"
  | .ratio _ => "Fraction"
  | .plain value => value.typeName

/-- The whole number that an operand is. -/
def integer? : Operand → Option Int
  | .plain (.int n) => some n
  | .plain (.bool b) => some (if b then 1 else 0)
  | _ => none

/-- The number that an operand multiplies a duration by. -/
def factor? : Operand → Option Rat
  | .ratio q => some q
  | operand => operand.integer?.map fun (n : Int) => (n : Rat)

/-- A text or a list, which can be repeated and joined. -/
def isSequence : Operand → Bool
  | .plain (.text _) => true
  | .plain (.list _) => true
  | _ => false

/-- The duration whose amount is exactly a number. A duration is not a number itself. -/
def exact : Operand → Except Error Duration
  | .duration _ => .error .typeAsRatio
  | .ratio q => ofRat q
  | .plain value => ofExact value

/-- The error of an arithmetic operator on operands that it does not take. -/
def unsupported (operator : String) (a b : Operand) : Error :=
  .unsupported operator a.typeName b.typeName

/-- The sum of two operands. -/
def add (a b : Operand) : Except Error Duration :=
  match a, b with
  | .duration x, .duration y => .ok (x + y)
  | _, _ =>
    .error (if a.isSequence then .concatenation a.typeName b.typeName else unsupported "+" a b)

/-- The difference of two operands. -/
def sub (a b : Operand) : Except Error Duration :=
  match a, b with
  | .duration x, .duration y =>
    match x.sub? y with
    | some d => .ok d
    | none => .error (.difference x y)
  | _, _ => .error (unsupported "-" a b)

/-- The product of a duration and a number. -/
def times (d : Duration) (q : Rat) : Except Error Duration := ofRat (d.value * q)

/-- The product of two operands. -/
def mul (a b : Operand) : Except Error Duration :=
  match a, b, a.factor?, b.factor? with
  | .duration x, _, _, some q => times x q
  | _, .duration y, some q, _ => times y q
  | _, _, _, _ =>
    .error <|
      if a.isSequence then .repetition b.typeName
      else if b.isSequence then .repetition a.typeName
      else unsupported "*" a b

/-- The quotient of two operands. The error of a division by zero shows the numerator that is left
when the fraction with denominator zero is reduced. -/
def div (a b : Operand) : Except Error Duration :=
  match a, b.integer? with
  | .duration x, some n =>
    if n = 0 then .error (.zeroDenominator (if x.value = 0 then 0 else 1))
    else ofRat (x.value / n)
  | _, _ => .error (unsupported "/" a b)

/-- A comparison of two operands. -/
def compare (operator : String) (holds : Duration → Duration → Bool) (a b : Operand) :
    Except Error Bool :=
  match a, b with
  | .duration x, .duration y => .ok (holds x y)
  | _, _ => .error (.unordered operator a.typeName b.typeName)

/-- The first operand is less than the second. -/
def lt : Operand → Operand → Except Error Bool := compare "<" fun a b => decide (a < b)

/-- The first operand is at most the second. -/
def le : Operand → Operand → Except Error Bool := compare "<=" fun a b => decide (a ≤ b)

/-- The first operand is greater than the second. -/
def gt : Operand → Operand → Except Error Bool := compare ">" fun a b => decide (b < a)

/-- The first operand is at least the second. -/
def ge : Operand → Operand → Except Error Bool := compare ">=" fun a b => decide (b ≤ a)

/-- Two equal durations. -/
def eq : Operand → Operand → Bool
  | .duration x, .duration y => decide (x = y)
  | _, _ => false

/-- The sum of operands, starting from no time at all. -/
def sum (operands : List Operand) : Except Error Duration :=
  operands.foldlM (fun total operand => add (.duration total) operand) zero

/-- The durations among operands, or the error of the first two neighbours without an order. -/
def durations : List Operand → Except Error (List Duration)
  | [] => .ok []
  | [.duration d] => .ok [d]
  | [operand] => .error (.unordered "<" operand.typeName operand.typeName)
  | .duration d :: .duration e :: rest => (durations (.duration e :: rest)).map (d :: ·)
  | a :: b :: _ => .error (.unordered "<" b.typeName a.typeName)

/-- The operands in ascending order, equal ones in their given order. -/
def sorted (operands : List Operand) : Except Error (List Duration) :=
  (durations operands).map fun ds => ds.mergeSort fun a b => decide (a ≤ b)

/-- Two operands are one member of a set. A duration is never the same as a number. -/
def sameMember : Operand → Operand → Bool
  | .duration x, .duration y => decide (x = y)
  | .ratio p, .ratio q => decide (p = q)
  | .ratio q, .plain value => value.key? = some (.number q)
  | .plain value, .ratio q => value.key? = some (.number q)
  | .plain v, .plain w => v.sameName w
  | _, _ => false

/-- The type of an operand that cannot be a member of a set. -/
def unhashable? : Operand → Option String
  | .plain value => if value.isCollection then some value.typeName else none
  | _ => none

/-- How many different operands there are. -/
def distinct (operands : List Operand) : Except Error Nat :=
  match operands.findSome? unhashable? with
  | some typeName => .error (.unhashable typeName)
  | none => .ok (operands.eraseDupsBy sameMember).length

end Operand

end RhythmTree.Duration
