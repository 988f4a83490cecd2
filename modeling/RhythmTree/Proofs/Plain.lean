import RhythmTree.Proofs.Times

/-!
# Plain tokens

The tokens that open measures, switch the mode and build trees, each in its plainest form: an atomic
token under the spelling of its keyword. A plain token asks for what its name says.
-/

namespace RhythmTree

/-- The text that stands for a mode. -/
def StackMode.mark : StackMode → String
  | .measure => "|"
  | .increment => "+"
  | .decrement => "-"

@[simp] theorem StackMode.ofMark?_mark (mode : StackMode) : ofMark? mode.mark = some mode := by
  rw [ofMark?, Text.string?_ofString]
  cases mode <;> rfl

/-- The level inside a number of levels. -/
def Level.below (outer : Nat) : Level := ⟨outer + 1, Nat.le_add_left 1 outer⟩

@[simp] theorem Level.outer_below (outer : Nat) : (below outer).outer = outer := rfl

namespace Token

/-- The token that opens a measure. -/
def bar : Token := .text Keyword.measure.spelling ""

/-- The token that switches the mode. -/
def switch (mode : StackMode) : Token := .text Keyword.stackMode.spelling mode.mark

/-- The token that adds a tree. -/
def root (d : Duration) : Token := .duration Keyword.rootDuration.spelling d

/-- The token that adds an inner node. -/
def inner (beats : Int) (level : Level) : Token := .int Keyword.innerNode.spelling beats level

/-- The token that adds a leaf. -/
def leaf (beats : Int) (level : Level) : Token := .int Keyword.leafNode.spelling beats level

theorem keyword?_of_identifier {t : Token} {k : Keyword} (h : t.identifier = k.spelling) :
    t.keyword? = some k := by
  rw [keyword?, h, Keyword.ofText?, Text.string?_ofString]
  exact k.ofSpelling?_spelling

@[simp] theorem instruction?_bar : bar.instruction? = some .openMeasure := by
  rw [instruction?, Reading.ofToken, keyword?_of_identifier (k := .measure) rfl]
  rfl

@[simp] theorem instruction?_switch (mode : StackMode) :
    (switch mode).instruction? = some (.setMode mode) := by
  rw [instruction?, Reading.ofToken, keyword?_of_identifier (k := .stackMode) rfl]
  simp only [switch, Reading.ofAtom, Reading.ofMode, textPayload, StackMode.ofMark?_mark]

@[simp] theorem instruction?_root (d : Duration) : (root d).instruction? = some (.addRoot d) := by
  rw [instruction?, Reading.ofToken, keyword?_of_identifier (k := .rootDuration) rfl]
  rfl

@[simp] theorem instruction?_inner (beats : Int) (level : Level) :
    (inner beats level).instruction? = some (.addInner beats level) := by
  rw [instruction?, Reading.ofToken, keyword?_of_identifier (k := .innerNode) rfl]
  rfl

@[simp] theorem instruction?_leaf (beats : Int) (level : Level) :
    (leaf beats level).instruction? = some (.addLeaf beats level) := by
  rw [instruction?, Reading.ofToken, keyword?_of_identifier (k := .leafNode) rfl]
  rfl

end Token

end RhythmTree
