/-!
# White space

Two sets of characters that readers drop at the ends of a text: the Unicode property White_Space,
and the same with the four information separators.
-/

namespace RhythmTree.Text

/-- The characters with the Unicode property White_Space. -/
def isSpace (c : Char) : Bool :=
  let n := c.toNat
  (9 ≤ n && n ≤ 13) || n == 0x20 || n == 0x85 || n == 0xA0 || n == 0x1680 ||
    (0x2000 ≤ n && n ≤ 0x200A) || n == 0x2028 || n == 0x2029 || n == 0x202F || n == 0x205F ||
    n == 0x3000

/-- White space, or one of the information separators U+001C to U+001F. -/
def isBlank (c : Char) : Bool :=
  isSpace c || (0x1C ≤ c.toNat && c.toNat ≤ 0x1F)

/-- The text without the characters of a set at its two ends. -/
def trim (drop : Char → Bool) (cs : List Char) : List Char :=
  ((cs.dropWhile drop).reverse.dropWhile drop).reverse

@[simp] theorem trim_nil (drop : Char → Bool) : trim drop [] = [] := rfl

end RhythmTree.Text
