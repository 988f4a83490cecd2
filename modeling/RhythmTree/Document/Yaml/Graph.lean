import RhythmTree.Document.Yaml.Scalar

/-!
# Graphs of nodes

A YAML document before its nodes have got values. A node may stand at several places, even inside of
itself, so nodes go by numbers: those of a graph in the order in which they start in the text.
-/

namespace RhythmTree.Document.Yaml

/-- How a node is written. Nodes inside of it are given by their numbers. -/
inductive Shape
  | scalar (text : Text)
  | list (items : List Nat)
  | record (fields : List (Nat × Nat))
  deriving DecidableEq, Repr

/-- A part of a document. -/
structure Node where
  /-- What the node means. -/
  kind : Kind
  /-- How the node is written. -/
  shape : Shape
  deriving DecidableEq, Repr

/-- Nodes by their numbers. -/
structure Graph where
  nodes : Array Node := #[]
  deriving Repr

namespace Graph

/-- The number of the next node. -/
def size (g : Graph) : Nat := g.nodes.size

/-- The graph with one more node. -/
def push (g : Graph) (n : Node) : Graph := ⟨g.nodes.push n⟩

/-- How a node is written; a number without a node counts as an empty scalar. -/
def shape (g : Graph) (id : Nat) : Shape :=
  match g.nodes[id]? with
  | some n => n.shape
  | none => .scalar ""

/-- What a node means. -/
def kind (g : Graph) (id : Nat) : Kind :=
  match g.nodes[id]? with
  | some n => n.kind
  | none => .null

/-- The fields of a node that is written as a record. -/
def fields (g : Graph) (id : Nat) : List (Nat × Nat) :=
  match g.shape id with
  | .record fields => fields
  | _ => []

/-- The graph with a node written in another way. -/
def setShape (g : Graph) (id : Nat) (shape : Shape) : Graph :=
  ⟨g.nodes.modify id fun n => { n with shape := shape }⟩

/-- The graph with a node that means something else. -/
def setKind (g : Graph) (id : Nat) (kind : Kind) : Graph :=
  ⟨g.nodes.modify id fun n => { n with kind := kind }⟩

/-- The number of nodes, items and fields. -/
def weight (g : Graph) : Nat :=
  g.nodes.foldl (fun total n =>
    match n.shape with
    | .scalar _ => total + 1
    | .list items => total + 1 + items.length
    | .record fields => total + 1 + fields.length) 0

end Graph

end RhythmTree.Document.Yaml
