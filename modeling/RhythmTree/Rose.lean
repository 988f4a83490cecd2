/-!
# Ordered trees

Trees with a label at every node and children in order. A node is addressed by the numbers of the
children on the way down to it, counted from zero. Walks go through a tree in pre-order: a node
comes before its children, and siblings come from left to right.
-/

namespace RhythmTree

/-- A tree whose nodes carry labels. -/
inductive Rose (α : Type)
  | node (label : α) (children : List (Rose α))
  deriving Repr

/-- The numbers of the children on the way from the root of a tree down to a node. -/
abbrev Address := List Nat

namespace Rose

variable {α β : Type}

instance [Inhabited α] : Inhabited (Rose α) := ⟨.node default []⟩

/-- The label of the root. -/
def label : Rose α → α
  | node a _ => a

/-- The subtrees below the root, in order. -/
def children : Rose α → List (Rose α)
  | node _ ts => ts

/-- A tree that is a single node. -/
def isLeaf (t : Rose α) : Bool := t.children.isEmpty

@[simp] theorem label_node (a : α) (ts : List (Rose α)) : (node a ts).label = a := rfl

@[simp] theorem children_node (a : α) (ts : List (Rose α)) : (node a ts).children = ts := rfl

mutual

/-- The tree with every label changed. -/
def map (f : α → β) : Rose α → Rose β
  | node a ts => node (f a) (mapAll f ts)

/-- The trees with every label changed. -/
def mapAll (f : α → β) : List (Rose α) → List (Rose β)
  | [] => []
  | t :: ts => map f t :: mapAll f ts

end

mutual

/-- The labels in pre-order. -/
def labels : Rose α → List α
  | node a ts => a :: labelsAll ts

/-- The labels of several trees, one tree after the other. -/
def labelsAll : List (Rose α) → List α
  | [] => []
  | t :: ts => labels t ++ labelsAll ts

end

mutual

/-- The labels of the nodes without children, from left to right. -/
def leaves : Rose α → List α
  | node a [] => [a]
  | node _ (t :: ts) => leaves t ++ leavesAll ts

/-- The leaves of several trees, one tree after the other. -/
def leavesAll : List (Rose α) → List α
  | [] => []
  | t :: ts => leaves t ++ leavesAll ts

end

/-- How many nodes a tree has. -/
def size (t : Rose α) : Nat := t.labels.length

mutual

/-- The addresses of the nodes in pre-order, with what stands at each. -/
def addressed : Rose α → List (Address × Rose α)
  | node a ts => ([], node a ts) :: addressedFrom 0 ts

/-- The addresses inside several siblings, the first of which has a given number. -/
def addressedFrom (first : Nat) : List (Rose α) → List (Address × Rose α)
  | [] => []
  | t :: ts =>
    (addressed t).map (fun entry => (first :: entry.1, entry.2)) ++ addressedFrom (first + 1) ts

end

/-- The subtree at an address. -/
def subtreeAt (t : Rose α) : Address → Option (Rose α)
  | [] => some t
  | i :: rest => t.children[i]?.bind fun child => child.subtreeAt rest

/-- The tree with the subtree at an address changed. -/
def modifyAt (f : Rose α → Rose α) : Address → Rose α → Rose α
  | [], t => f t
  | i :: rest, node a ts => node a (ts.modify i (modifyAt f rest))

/-- The tree with the label of its root changed. -/
def modifyLabel (f : α → α) : Rose α → Rose α
  | node a ts => node (f a) ts

/-- The tree with one more child, a leaf, after the others. -/
def addLeaf (label : α) : Rose α → Rose α
  | node a ts => node a (ts ++ [node label []])

@[simp] theorem subtreeAt_nil (t : Rose α) : t.subtreeAt [] = some t := rfl

@[simp] theorem subtreeAt_cons (t : Rose α) (i : Nat) (rest : Address) :
    t.subtreeAt (i :: rest) = t.children[i]?.bind fun child => child.subtreeAt rest := rfl

/-- Going down along two addresses in a row is going down along the joined one. -/
theorem subtreeAt_append (t : Rose α) (p q : Address) :
    t.subtreeAt (p ++ q) = (t.subtreeAt p).bind (·.subtreeAt q) := by
  induction p generalizing t with
  | nil => rfl
  | cons i rest ih =>
    rw [List.cons_append, subtreeAt_cons, subtreeAt_cons]
    cases t.children[i]? with
    | none => rfl
    | some child => exact ih child

end Rose

end RhythmTree
