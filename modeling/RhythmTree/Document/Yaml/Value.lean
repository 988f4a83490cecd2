import RhythmTree.Document.Key
import RhythmTree.Document.Yaml.Merge

/-!
# Values of nodes

The values that the nodes of a graph mean. A scalar gets its value as soon as it is met. A
collection is empty at first and waits in a queue until it is filled, so the values of a document
are found level by level; a node that is met again has its value already. Of several faults the one
that is met first counts.
-/

namespace RhythmTree.Document.Yaml

/-- The value of a node. Nodes inside of it are given by their numbers. -/
inductive Value
  | scalar (document : Document)
  | list (items : List Nat)
  | pairs (items : List (Nat × Nat))
  | set (members : List Document)
  | record (fields : List (Document × Nat))
  deriving Repr

/-- The fields with one more, in the place of the one with the same name if there is one. -/
def placeField {α : Type} (fields : List (Document × α)) (name : Document) (value : α) :
    List (Document × α) :=
  match fields with
  | [] => [(name, value)]
  | (first, old) :: rest =>
    if first.sameName name then (first, value) :: rest
    else (first, old) :: placeField rest name value

/-- How far the values of a graph have been found. -/
structure Valuation where
  graph : Graph
  /-- The number of nodes, items and fields of the graph as it was written. -/
  weight : Nat
  /-- The values so far. -/
  values : Array (Option Value)
  /-- The collections that wait to be filled, the last one first. -/
  waiting : List Nat

/-- A step on the way to the values of a graph. -/
abbrev Valuer := StateT Valuation (Except Fault)

namespace Valuer

/-- The value of a node, if it has been met. -/
def value? (id : Nat) : Valuer (Option Value) :=
  return ((← get).values[id]?).join

/-- A node gets a value. -/
def assign (id : Nat) (value : Value) : Valuer Unit :=
  modify fun s => { s with values := s.values.setIfInBounds id (some value) }

/-- The text of a node that means a scalar. A record stands for the scalar under the name of its
value. The bound is on the number of records on the way to it. -/
def scalarText (g : Graph) : Nat → Nat → Except Fault Text
  | 0, _ => .error .endless
  | fuel + 1, id =>
    match g.shape id with
    | .scalar t => .ok t
    | .list _ => .error .malformed
    | .record fields =>
      match fields.find? fun (name, _) => g.kind name = .value with
      | some (_, value) => scalarText g fuel value
      | none => .error .malformed

/-- The value of a node that means a scalar. A moment has to be written as a scalar itself. -/
def scalar (g : Graph) (id : Nat) : Except Fault Document := do
  let t ← scalarText g (g.size + 1) id
  match g.kind id, g.shape id with
  | .moment, .record _ => .error .recordAsMoment
  | kind, _ => kind.read t

/-- A node is met: a scalar gets its value, and a collection waits to be filled. -/
def meet (id : Nat) : Valuer Unit := do
  if (← value? id).isNone then
    let g := (← get).graph
    let wait (value : Value) : Valuer Unit := do
      assign id value
      modify fun s => { s with waiting := id :: s.waiting }
    match g.kind id with
    | .list => wait (.list [])
    | .pairs => wait (.pairs [])
    | .set => wait (.set [])
    | .record => wait (.record [])
    | .merge | .value | .unknown => throw .malformed
    | _ => assign id (.scalar (← scalar g id))

/-- A node is met as the name of a field, where a collection cannot stand. -/
def meetName (id : Nat) : Valuer Document := do
  meet id
  match ← value? id with
  | some (.scalar document) => return document
  | _ => throw .malformed

/-- The fields of a node that is written as a record, after it has taken in those of others. Of
several fields with one name the last one counts, in the place of the first. -/
def fieldsOf (id : Nat) : Valuer (List (Document × Nat)) := do
  let s ← get
  match s.graph.shape id with
  | .record _ =>
    let g ← s.graph.merge s.weight id
    modify fun s => { s with graph := g }
    (g.fields id).foldlM (fun done (name, value) => do
      let key ← meetName name
      meet value
      return placeField done key value) []
  | _ => throw .malformed

/-- The items of a node that is written as a list. -/
def itemsOf (id : Nat) : Valuer (List Nat) := do
  match (← get).graph.shape id with
  | .list items => return items
  | _ => throw .malformed

/-- The name and the value in a record with one field. -/
def pairOf (id : Nat) : Valuer (Nat × Nat) := do
  match (← get).graph.shape id with
  | .record [(name, value)] =>
    meet name
    meet value
    return (name, value)
  | _ => throw .malformed

/-- A collection is filled. -/
def fill (id : Nat) : Valuer Unit := do
  match (← get).graph.kind id with
  | .list =>
    let items ← itemsOf id
    items.forM meet
    assign id (.list items)
  | .pairs => assign id (.pairs (← (← itemsOf id).mapM pairOf))
  | .set => assign id (.set ((← fieldsOf id).map Prod.fst))
  | _ => assign id (.record (← fieldsOf id))

/-- The collections that wait are filled level by level, each node once at most. -/
def fillAll : Nat → Valuer Unit
  | 0 => return
  | fuel + 1 => do
    let level := (← get).waiting.reverse
    if !level.isEmpty then
      modify fun s => { s with waiting := [] }
      level.forM fill
      fillAll fuel

/-- All that a node leads to is met and filled. -/
def explore (id : Nat) : Valuer Unit := do
  meet id
  fillAll ((← get).graph.size + 1)

end Valuer

/-- The values of the nodes that a node leads to. -/
def Graph.values (g : Graph) (root : Nat) : Except Fault (Array (Option Value)) := do
  let start : Valuation := ⟨g, g.weight, Array.replicate g.size none, []⟩
  let (_, s) ← (Valuer.explore root).run start
  return s.values

end RhythmTree.Document.Yaml
