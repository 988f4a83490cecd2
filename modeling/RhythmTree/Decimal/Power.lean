/-!
# Powers of two and ten

The powers that numerals and binary values are scaled by.
-/

namespace RhythmTree.Decimal

/-- A power of two. -/
def twoTo (n : Nat) : Nat := Nat.pow 2 n

/-- A power of ten. -/
def tenTo (n : Nat) : Nat := Nat.pow 10 n

theorem twoTo_pos (n : Nat) : 0 < twoTo n := Nat.pow_pos (by decide)

theorem tenTo_pos (n : Nat) : 0 < tenTo n := Nat.pow_pos (by decide)

@[simp] theorem twoTo_zero : twoTo 0 = 1 := rfl

@[simp] theorem tenTo_zero : tenTo 0 = 1 := rfl

theorem twoTo_succ (n : Nat) : twoTo (n + 1) = twoTo n * 2 := rfl

theorem tenTo_succ (n : Nat) : tenTo (n + 1) = tenTo n * 10 := rfl

end RhythmTree.Decimal
