import RhythmTree.Tree.Normalize

/-!
# Forests

Several rhythm trees in the order in which they were started. A place names a node of a forest by
the number of its tree and its address there. Growing a forest never moves a node: new trees come
after the others, and new children after their siblings.
-/

namespace RhythmTree

/-- Rhythm trees in order. -/
abbrev Forest := List Tree

/-- Where a node stands in a forest. -/
structure Place where
  /-- The number of the tree, counted from zero. -/
  tree : Nat
  /-- The address of the node in its tree. -/
  path : Address
  deriving DecidableEq, Repr

namespace Place

/-- The place of the root of the same tree. -/
def root (p : Place) : Place := ⟨p.tree, []⟩

/-- The place of the parent of a node below a root. -/
def parent? (p : Place) : Option Place :=
  if p.path.isEmpty then none else some ⟨p.tree, p.path.dropLast⟩

/-- How many nodes are above a node. -/
def depth (p : Place) : Nat := p.path.length

/-- The place of a child. -/
def child (p : Place) (i : Nat) : Place := ⟨p.tree, p.path ++ [i]⟩

end Place

namespace Forest

/-- The subtree at a place. -/
def subtreeAt (f : Forest) (p : Place) : Option Tree :=
  f[p.tree]?.bind fun t => t.subtreeAt p.path

/-- The label of the node at a place. -/
def nodeAt? (f : Forest) (p : Place) : Option Node := (f.subtreeAt p).map Rose.label

/-- The forest with the subtree at a place changed. -/
def modifyAt (f : Forest) (change : Tree → Tree) (p : Place) : Forest :=
  List.modify f p.tree (Rose.modifyAt change p.path)

/-- The forest with the label of the node at a place changed. -/
def modifyNode (f : Forest) (change : Node → Node) (p : Place) : Forest :=
  f.modifyAt (Rose.modifyLabel change) p

/-- The forest with a component added to the node at a place. -/
def addComponent (f : Forest) (c : Component) (p : Place) : Forest :=
  f.modifyAt (Tree.addComponent c) p

/-- The place of the next tree. -/
def nextRoot (f : Forest) : Place := ⟨f.length, []⟩

/-- The place of the next child of a node. -/
def nextChild (f : Forest) (p : Place) : Place :=
  p.child ((f.subtreeAt p).elim 0 fun t => t.children.length)

/-- The forest with a new child of a weight below the node at a place. -/
def addChild (f : Forest) (beats : Int) (p : Place) : Forest :=
  f.modifyAt (Rose.addLeaf { beats := beats }) p

/-- The places of the nodes of a subtree in pre-order, each with its subtree. -/
def placesBelow (f : Forest) (p : Place) : List (Place × Tree) :=
  match f.subtreeAt p with
  | none => []
  | some t => t.addressed.map fun entry => (⟨p.tree, p.path ++ entry.1⟩, entry.2)

/-- The leaves of all trees from left to right. -/
def leaves (f : Forest) : List Node := Rose.leavesAll f

/-- The number of nodes below and including the roots. -/
def size (f : Forest) : Nat := (Rose.labelsAll f).length

end Forest

end RhythmTree
