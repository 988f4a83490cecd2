import RhythmTree.Decimal.Layout
import RhythmTree.Document.Yaml.Assembly
import RhythmTree.Document.Yaml.Value

/-!
# Reading YAML

The document that a YAML text holds. The values of its nodes are put into each other from the root
on. A record that is met again inside of itself is not put in once more, nor is a list that is met
again with no record in between; the document says instead that a collection around stands there.
Names are kept by their text, unless they are moments or octets.
-/

namespace RhythmTree.Document.Yaml

/-- The name that a value is. -/
def fieldName : Document → Document.Name
  | .null => .text "null"
  | .bool b => .text (if b then "true" else "false")
  | .int n => .text (toString n)
  | .float x => .text (Decimal.Layout.json.text x)
  | .moment m => .moment m
  | .octets value => .octets value
  | .text t => .text t
  | _ => .text ""

/-- The documents of the nodes that have been put together, by their numbers. -/
abbrev Finished := Array (Option Document)

/-- The documents of some nodes, and whether one of them names a collection around. -/
def gathered {α β : Type} (join : α → Document → β) (found : List (α × Document × Bool)) :
    List β × Bool :=
  (found.map fun (a, document, _) => join a document, found.any fun (_, _, isOpen) => isOpen)

/-- The document of a node inside of some records and lists, and whether it names a collection
around. A document that does not is the same wherever the node stands, so it is kept. -/
def put (values : Array (Option Value)) :
    Nat → List Nat → List Nat → Nat → StateM Finished (Document × Bool)
  | 0, _, _, _ => return (.null, false)
  | fuel + 1, records, lists, id => do
    match ((← get)[id]?).join with
    | some document => return (document, false)
    | none =>
      let (document, isOpen) ← match (values[id]?).join with
        | none => pure (Document.null, false)
        | some (.scalar document) => pure (document, false)
        | some (.set members) => pure (Document.set members, false)
        | some (.list items) =>
          if lists.contains id then pure (Document.ancestor false, true)
          else
            let found ← items.mapM fun item => do
              return ((), ← put values fuel records (id :: lists) item)
            let (items, isOpen) := gathered (fun _ document => document) found
            pure (Document.list items, isOpen)
        | some (.pairs items) =>
          if lists.contains id then pure (Document.ancestor false, true)
          else
            let found ← items.mapM fun (first, second) => do
              let (first, isOpen) ← put values fuel records (id :: lists) first
              let (second, isOpenToo) ← put values fuel records (id :: lists) second
              return (first, second, isOpen || isOpenToo)
            let (items, isOpen) := gathered Document.pair found
            pure (Document.list items, isOpen)
        | some (.record fields) =>
          if records.contains id then pure (Document.ancestor true, true)
          else
            let found ← fields.mapM fun (name, value) => do
              return (fieldName name, ← put values fuel (id :: records) [] value)
            let (fields, isOpen) := gathered (fun name document => (name, document)) found
            pure (Document.record fields, isOpen)
      if !isOpen then modify fun finished => finished.setIfInBounds id (some document)
      return (document, isOpen)

/-- The document of a node. Between two records on the way down every list stands once at most, and
every record stands there once. -/
def documentOf (values : Array (Option Value)) (root : Nat) : Document :=
  let bound := (values.size + 1) * (values.size + 1)
  let ((document, _), _) := (put values bound [] [] root).run (Array.replicate values.size none)
  document

/-- The document that a text holds, nothing if it is empty. -/
def Source.document (s : Source) : Except Fault Document := do
  match ← Rooted.ofLexemes s.lexemes with
  | none => return .null
  | some ⟨g, root⟩ => return documentOf (← g.values root) root

/-- The document that the octets of a YAML text encode. -/
def read (octets : List UInt8) : Except Fault Document := (Source.ofOctets octets).document

end RhythmTree.Document.Yaml
