import RhythmTree.Document.Yaml.Fault
import RhythmTree.Document.Yaml.Graph

/-!
# Merging records

A record takes in the fields of a record, or of the records in a list, that stands under a merge
name; those of the last record in a list come first, and its own fields come after all of them. The
merge names are taken out one by one, so a record that takes itself in does so only once. On the way
the name of the value that a record may stand for becomes an ordinary name.
-/

namespace RhythmTree.Document.Yaml.Graph

/-- The first place, from a place on, of a field whose name is no ordinary one. -/
def nextSpecial? (g : Graph) (start : Nat) (fields : List (Nat × Nat)) : Option Nat :=
  ((fields.drop start).findIdx? fun (name, _) => g.kind name = .merge || g.kind name = .value).map
    (start + ·)

mutual

/-- The graph in which a record has taken in fields, seen from a place among its fields. The fields
that have been found for it so far come first in the end. -/
def mergeFrom : Nat → Nat → Nat → List (Nat × Nat) → Graph → Except Fault Graph
  | 0, _, _, _, _ => .error .endless
  | fuel + 1, id, start, found, g =>
    let fields := g.fields id
    match g.nextSpecial? start fields with
    | none => .ok (if found.isEmpty then g else g.setShape id (.record (found ++ fields)))
    | some place =>
      match fields[place]? with
      | none => .error .malformed
      | some (name, value) =>
        if g.kind name = .value then
          mergeFrom fuel id (place + 1) found (g.setKind name .text)
        else
          let g := g.setShape id (.record (fields.eraseIdx place))
          match g.shape value with
          | .record _ =>
            match mergeFrom fuel value 0 [] g with
            | .error fault => .error fault
            | .ok g => mergeFrom fuel id place (found ++ g.fields value) g
          | .list items =>
            match mergeItems fuel items [] g with
            | .error fault => .error fault
            | .ok (parts, g) => mergeFrom fuel id place (found ++ parts.flatten) g
          | .scalar _ => .error .malformed

/-- The fields of the records in a list, the last record first, after those that are given, and the
graph in which these records have taken in fields. -/
def mergeItems : Nat → List Nat → List (List (Nat × Nat)) → Graph →
    Except Fault (List (List (Nat × Nat)) × Graph)
  | 0, _, _, _ => .error .endless
  | _ + 1, [], parts, g => .ok (parts, g)
  | fuel + 1, item :: rest, parts, g =>
    match g.shape item with
    | .record _ =>
      match mergeFrom fuel item 0 [] g with
      | .error fault => .error fault
      | .ok g => mergeItems fuel rest (g.fields item :: parts) g
    | _ => .error .malformed

end

/-- The graph in which a record has taken in the fields that stand under its merge names. Every step
uses up a field or an item of the graph as it was written, whose weight is given. -/
def merge (weight id : Nat) (g : Graph) : Except Fault Graph :=
  mergeFrom (2 * weight + 2) id 0 [] g

end RhythmTree.Document.Yaml.Graph
