import RhythmTree.Document.Inline
import RhythmTree.Tree.Basic

/-!
# Normalization

Three passes turn the weights of a tree into times. The first finds the nodes whose children cannot
divide them because one has a weight of zero or less. The second gives every child its share of
the duration of its parent, in proportion to the weights; below a node that the first pass found,
durations stay as they are. The third lays the children of every node out back to back, from the
offset of the node on. The root itself keeps its duration and its offset.
-/

namespace RhythmTree.Tree

/-- The weights of some siblings. -/
def weights (ts : List Tree) : List Int := ts.map fun t => t.label.beats

/-- Siblings that can divide a duration: all weights are positive. -/
def divisible (ts : List Tree) : Bool := (weights ts).all fun w => 0 < w

/-- The sum of the weights of siblings that can divide a duration. -/
def totalWeight : List Tree → Nat
  | [] => 0
  | t :: ts => t.label.beats.toNat + totalWeight ts

/-- A node whose children cannot divide it. -/
structure Indivisible where
  /-- Where the node stands in its tree. -/
  path : Address
  /-- The weights of its children. -/
  weights : List Int
  deriving DecidableEq, Repr

/-- What reports say about a node whose children cannot divide it. -/
def Indivisible.message (p : Indivisible) : String :=
  pathText p.path ++ ": non-positive beat weights " ++ (Document.list (p.weights.map .int)).inline

/-- The nodes of a subtree whose children cannot divide them, in pre-order. -/
def indivisible (base : Address) (t : Tree) : List Indivisible :=
  t.addressed.filterMap fun entry =>
    if divisible entry.2.children then none
    else some ⟨base ++ entry.1, weights entry.2.children⟩

mutual

/-- The tree whose root lasts for a time, which is divided among the nodes below. -/
def fill (duration : Duration) : Tree → Tree
  | .node n ts =>
    .node { n with duration := duration }
      (if divisible ts then fillShares duration (totalWeight ts) ts else ts)

/-- Siblings with their shares of the duration of their parent. -/
def fillShares (whole : Duration) (total : Nat) : List Tree → List Tree
  | [] => []
  | t :: ts => fill (whole.share t.label.beats.toNat total) t :: fillShares whole total ts

end

/-- Divides the duration of the root among the nodes below it. -/
def scale (t : Tree) : Tree := fill t.label.duration t

mutual

/-- The tree moved to an offset, with the children of every node back to back. -/
def placeAt (offset : Duration) : Tree → Tree
  | .node n ts => .node { n with offset := offset } (placeFrom offset ts)

/-- Siblings placed back to back from an offset on. -/
def placeFrom (offset : Duration) : List Tree → List Tree
  | [] => []
  | t :: ts => placeAt offset t :: placeFrom (offset + t.label.duration) ts

end

/-- Lays the children of every node out back to back. -/
def layOut (t : Tree) : Tree := placeAt t.label.offset t

/-- Fills in the duration and the offset of every node below the root. -/
def normalize (t : Tree) : Tree := layOut (scale t)

end RhythmTree.Tree
