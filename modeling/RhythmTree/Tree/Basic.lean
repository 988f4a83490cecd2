import RhythmTree.Component
import RhythmTree.Rose
import RhythmTree.Span

/-!
# Rhythm trees

A rhythm tree divides a duration. Its root lasts for an absolute time; every node below carries a
weight in beats, and its own duration and offset are filled in by normalization. Leaves are
decorated with components.
-/

namespace RhythmTree

/-- What a node of a rhythm tree carries. -/
structure Node where
  /-- The weight among the siblings. -/
  beats : Int := 1
  /-- How long the node lasts. -/
  duration : Duration := .zero
  /-- Where the node starts. -/
  offset : Duration := .zero
  /-- The events on the node, in the order in which they were added. -/
  components : List Component := []
  deriving DecidableEq, Repr, Inhabited

/-- The time that a node occupies. -/
def Node.span (n : Node) : Span := .ofLength n.duration n.offset

/-- The point at which a node ends. -/
def Node.stop (n : Node) : Duration := n.offset + n.duration

/-- A tree of nodes. -/
abbrev Tree := Rose Node

namespace Tree

/-- A tree of one node that lasts for an absolute time. -/
def ofDuration (duration offset : Duration) : Tree :=
  .node { duration := duration, offset := offset } []

/-- The tree with a component added to its root. -/
def addComponent (c : Component) (t : Tree) : Tree :=
  t.modifyLabel fun n => { n with components := n.components ++ [c] }

/-- The address of a node as reports show it. -/
def pathText (path : Address) : String :=
  "/".intercalate ("root" :: path.map toString)

/-- The text that shows a value to be a node. -/
def inline (t : Tree) : String :=
  "DurationNode(beats=" ++ toString t.label.beats ++ ", duration=" ++ t.label.duration.text ++
    ", offset=" ++ t.label.offset.text ++ ", children=" ++ toString t.children.length ++ ")"

/-- The fields of a node that do not depend on its children. -/
def nodeFields (n : Node) : Document.Fields :=
  let times : Document.Fields :=
    [("beats", .int n.beats), ("duration", .text n.duration.text), ("offset", .text n.offset.text)]
  if n.components.isEmpty then times
  else times ++ [Document.field "components" (.list (n.components.map Component.toDocument))]

mutual

/-- A tree as a record. -/
def toDocument : Tree → Document
  | .node n [] => .record (nodeFields n)
  | .node n (t :: ts) =>
    let children : Document := .list (toDocument t :: toDocuments ts)
    .record (nodeFields n ++ [Document.field "children" children])

/-- Trees as records. -/
def toDocuments : List Tree → List Document
  | [] => []
  | t :: ts => toDocument t :: toDocuments ts

end

end Tree

end RhythmTree
