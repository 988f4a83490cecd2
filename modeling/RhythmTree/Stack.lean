/-!
# Stacks

Last in, first out. Closing more items than a stack holds empties it, and the number of items that
were really closed tells the difference.
-/

namespace RhythmTree

/-- Open items, the innermost one first. -/
structure Stack (α : Type) where
  /-- The items from the innermost outwards. -/
  items : List α := []
  deriving DecidableEq, Repr

namespace Stack

variable {α : Type}

/-- The stack without items. -/
def empty : Stack α := {}

instance : Inhabited (Stack α) := ⟨empty⟩

/-- The stack onto which items have been pushed from left to right. -/
def ofList (items : List α) : Stack α := ⟨items.reverse⟩

/-- The innermost item. -/
def top? (s : Stack α) : Option α := s.items.head?

/-- The number of items. -/
def size (s : Stack α) : Nat := s.items.length

/-- Opens an item inside the others. -/
def push (s : Stack α) (item : α) : Stack α := ⟨item :: s.items⟩

/-- How many items are closed when a number of them should be; a negative number closes none. -/
def closable (s : Stack α) (amount : Int) : Nat := min amount.toNat s.size

/-- Closes a number of innermost items, as far as there are any. -/
def pop (s : Stack α) (amount : Int) : Stack α := ⟨s.items.drop (s.closable amount)⟩

/-- The stack that holds one item alone. -/
def reseed (item : α) : Stack α := ⟨[item]⟩

/-- The text that shows a value to be a stack. -/
def inline (s : Stack α) : String := "NodeStack(depth=" ++ toString s.size ++ ")"

@[simp] theorem top?_push (s : Stack α) (item : α) : (s.push item).top? = some item := rfl

@[simp] theorem size_push (s : Stack α) (item : α) : (s.push item).size = s.size + 1 := rfl

theorem size_pop (s : Stack α) (amount : Int) :
    (s.pop amount).size + s.closable amount = s.size := by
  simp only [pop, closable, size, List.length_drop]
  omega

end Stack

end RhythmTree
