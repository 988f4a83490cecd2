import RhythmTree.Document.Yaml.Graph
import RhythmTree.Document.Yaml.Lexeme

/-!
# From lexemes to graphs

The graph of the document that the lexemes of a text spell. An item, a name or a value that is left
out is a scalar without characters. In brackets an item may be a single field, which is a record of
its own; the list of a field may stand in the column of the field, so that no block opens for it. A
node may get a name, by which it can stand again later, and a tag, which says what it means.

Lexemes are looked at one by one, so a fault in the text is met before all that stands after it. The
functions take a bound on the number of steps, which the number of lexemes provides.
-/

namespace RhythmTree.Document.Yaml

/-- How far a graph has been assembled. -/
structure Assembly where
  /-- The lexemes that have not been used. -/
  lexemes : List Lexeme
  /-- The fault that is met after them. -/
  fault : Fault
  /-- The nodes so far. -/
  graph : Graph := {}
  /-- The nodes that have got a name. -/
  names : List (List Char × Nat) := []
  /-- What the handles of tags stand for. -/
  handles : List (List Char × List Char) := []

/-- A step in the assembly of a graph. -/
abbrev Assembler := StateT Assembly (Except Fault)

/-- Where a node stands. -/
inductive Place
  /-- Inside of brackets. -/
  | flow
  /-- In a block. -/
  | block
  /-- In a block, as the name or the value of a field. -/
  | field
  deriving DecidableEq, Repr

/-- An item of a block list is left out before these. -/
def endsItem (lexeme : Lexeme) : Bool := lexeme = .dash || lexeme = .closeBlock

/-- A name or a value in a block is left out before these. -/
def endsField (lexeme : Lexeme) : Bool :=
  lexeme = .name || lexeme = .value || lexeme = .closeBlock

/-- A value in brackets is left out before these. -/
def endsFlow (closing lexeme : Lexeme) : Bool := lexeme = .comma || lexeme = closing

/-- A document is left out before these. -/
def endsDocument : Lexeme → Bool
  | .directive _ | .documentStart | .documentEnd | .textEnd => true
  | _ => false

/-- What stands in front of a node. -/
structure Properties where
  /-- The name that the node gets. -/
  name : Option (List Char) := none
  /-- The tag of the node, with what its handle stands for. -/
  tag : Option (List Char) := none

namespace Properties

/-- There is a name or a tag. -/
def isSome (p : Properties) : Bool := p.name.isSome || p.tag.isSome

/-- The tag, unless it leaves the meaning to the text. -/
def tag? (p : Properties) : Option (List Char) := p.tag.filter (· ≠ Tag.open.ending)

/-- What a list or a record means, given what it means without a tag. -/
def collectionKind (p : Properties) (kind : Kind) : Kind := (p.tag?.map Kind.ofTag).getD kind

/-- What a scalar means that is written with or without quotes. -/
def scalarKind (p : Properties) (isPlain : Bool) (t : Text) : Kind :=
  match p.tag?, p.tag with
  | some tag, _ => .ofTag tag
  | none, some _ => .ofText t
  | none, none => if isPlain then .ofText t else .text

end Properties

namespace Assembler

/-- The next lexeme. -/
def peek : Assembler Lexeme := do
  let s ← get
  match s.lexemes with
  | [] => throw s.fault
  | lexeme :: _ => return lexeme

/-- The next lexeme is used up. -/
def skip : Assembler Unit := modify fun s => { s with lexemes := s.lexemes.drop 1 }

/-- A tag with what its handle stands for. -/
def fullTag (tag : Tag) : Assembler (List Char) := do
  match tag.handle with
  | none => return tag.ending
  | some handle =>
    match (← get).handles.lookup handle with
    | some beginning => return beginning ++ tag.ending
    | none => throw .malformed

/-- The name and the tag in front of a node, in either order. -/
def properties : Assembler Properties := do
  match ← peek with
  | .anchor name =>
    skip
    match ← peek with
    | .tag tag =>
      skip
      return ⟨some name, some (← fullTag tag)⟩
    | _ => return ⟨some name, none⟩
  | .tag tag =>
    skip
    match ← peek with
    | .anchor name =>
      skip
      return ⟨some name, some (← fullTag tag)⟩
    | _ => return ⟨none, some (← fullTag tag)⟩
  | _ => return {}

/-- One more node. No name is given twice. -/
def add (p : Properties) (kind : Kind) (shape : Shape) : Assembler Nat := do
  let s ← get
  let id := s.graph.size
  let names ← match p.name with
    | none => pure s.names
    | some name =>
      if (s.names.lookup name).isSome then throw .malformed else pure ((name, id) :: s.names)
  modify fun s => { s with graph := s.graph.push ⟨kind, shape⟩, names := names }
  return id

/-- A scalar. -/
def addScalar (p : Properties) (isPlain : Bool) (t : Text) : Assembler Nat :=
  add p (p.scalarKind isPlain t) (.scalar t)

/-- A scalar in the place of a node that is left out. -/
def addOmitted : Assembler Nat := addScalar {} true ""

/-- A node of which only the name or the tag is there. -/
def omitted (p : Properties) : Assembler Nat :=
  if p.isSome then addScalar p true "" else throw .malformed

/-- The node with a name. -/
def named (name : List Char) : Assembler Nat := do
  match (← get).names.lookup name with
  | some id => return id
  | none => throw .malformed

/-- A node with what is inside of it, of which it had nothing at first. -/
def complete (id : Nat) (shape : Shape) : Assembler Nat := do
  modify fun s => { s with graph := s.graph.setShape id shape }
  return id

/-- Between two items in brackets there is a comma. -/
def separator (isFirst : Bool) : Assembler Unit := do
  if !isFirst then
    if (← peek) = .comma then skip else throw .malformed

mutual

/-- A node. -/
def node : Nat → Place → Assembler Nat
  | 0, _ => throw .malformed
  | fuel + 1, place => do
    match ← peek with
    | .reference name =>
      skip
      named name
    | _ => content fuel place (← properties)

/-- What stands after the name and the tag of a node. -/
def content : Nat → Place → Properties → Assembler Nat
  | 0, _, _ => throw .malformed
  | fuel + 1, place, p => do
    match ← peek with
    | .plain cs =>
      skip
      addScalar p true (.ofChars cs)
    | .text t =>
      skip
      addScalar p false t
    | .openList =>
      let id ← add p (p.collectionKind .list) (.list [])
      skip
      complete id (.list (← flowItems fuel []))
    | .openRecord =>
      let id ← add p (p.collectionKind .record) (.record [])
      skip
      complete id (.record (← flowFields fuel []))
    | .openBlockList =>
      if place = .flow then omitted p
      else
        let id ← add p (p.collectionKind .list) (.list [])
        skip
        complete id (.list (← blockItems fuel []))
    | .openBlockRecord =>
      if place = .flow then omitted p
      else
        let id ← add p (p.collectionKind .record) (.record [])
        skip
        complete id (.record (← blockFields fuel []))
    | .dash =>
      if place = .field then
        let id ← add p (p.collectionKind .list) (.list [])
        complete id (.list (← bareItems fuel []))
      else omitted p
    | _ => omitted p

/-- A node, or nothing in front of a lexeme that ends it. -/
def nodeBefore : Nat → Place → (Lexeme → Bool) → Assembler Nat
  | 0, _, _ => throw .malformed
  | fuel + 1, place, ends => do
    if ends (← peek) then addOmitted else node fuel place

/-- The value of a field, left out if there is no mark for it. -/
def valueBefore : Nat → Place → (Lexeme → Bool) → Assembler Nat
  | 0, _, _ => throw .malformed
  | fuel + 1, place, ends => do
    if (← peek) = .value then
      skip
      nodeBefore fuel place ends
    else addOmitted

/-- The items of a block list up to its end, those before in reverse. -/
def blockItems : Nat → List Nat → Assembler (List Nat)
  | 0, _ => throw .malformed
  | fuel + 1, done => do
    match ← peek with
    | .dash =>
      skip
      let item ← nodeBefore fuel .block endsItem
      blockItems fuel (item :: done)
    | .closeBlock =>
      skip
      return done.reverse
    | _ => throw .malformed

/-- The items of a list without a block of its own, those before in reverse. -/
def bareItems : Nat → List Nat → Assembler (List Nat)
  | 0, _ => throw .malformed
  | fuel + 1, done => do
    if (← peek) = .dash then
      skip
      let item ← nodeBefore fuel .block fun l => endsItem l || endsField l
      bareItems fuel (item :: done)
    else return done.reverse

/-- The fields of a block record up to its end, those before in reverse. -/
def blockFields : Nat → List (Nat × Nat) → Assembler (List (Nat × Nat))
  | 0, _ => throw .malformed
  | fuel + 1, done => do
    match ← peek with
    | .name =>
      skip
      let name ← nodeBefore fuel .field endsField
      let value ← valueBefore fuel .field endsField
      blockFields fuel ((name, value) :: done)
    | .closeBlock =>
      skip
      return done.reverse
    | _ => throw .malformed

/-- A field in brackets, after the mark of its name. -/
def flowField : Nat → Lexeme → Assembler (Nat × Nat)
  | 0, _ => throw .malformed
  | fuel + 1, closing => do
    let name ← nodeBefore fuel .flow fun l => l = .value || endsFlow closing l
    let value ← valueBefore fuel .flow (endsFlow closing)
    return (name, value)

/-- The items of a flow list up to its end, those before in reverse. -/
def flowItems : Nat → List Nat → Assembler (List Nat)
  | 0, _ => throw .malformed
  | fuel + 1, done => do
    if (← peek) ≠ .closeList then separator done.isEmpty
    match ← peek with
    | .closeList =>
      skip
      return done.reverse
    | .name =>
      let id ← add {} .record (.record [])
      skip
      let field ← flowField fuel .closeList
      flowItems fuel ((← complete id (.record [field])) :: done)
    | _ =>
      let item ← node fuel .flow
      flowItems fuel (item :: done)

/-- The fields of a flow record up to its end, those before in reverse. -/
def flowFields : Nat → List (Nat × Nat) → Assembler (List (Nat × Nat))
  | 0, _ => throw .malformed
  | fuel + 1, done => do
    if (← peek) ≠ .closeRecord then separator done.isEmpty
    match ← peek with
    | .closeRecord =>
      skip
      return done.reverse
    | .name =>
      skip
      let field ← flowField fuel .closeRecord
      flowFields fuel (field :: done)
    | _ =>
      let name ← node fuel .flow
      let value ← addOmitted
      flowFields fuel ((name, value) :: done)

end

/-- What handles stand for without directives. -/
def standardHandles : List (List Char × List Char) :=
  [(['!'], ['!']), (['!', '!'], kindBeginning)]

/-- The directives in front of a document, after those that say what some handles stand for. The
version may be named once, and its first number is one; no handle is explained twice. -/
def directives (versioned : Bool) (handles : List (List Char × List Char)) :
    Nat → Assembler Unit
  | 0 => throw .malformed
  | fuel + 1 => do
    match ← peek with
    | .directive directive =>
      skip
      match directive with
      | .version major =>
        if versioned || major ≠ 1 then throw .malformed else directives true handles fuel
      | .handle handle beginning =>
        if (handles.lookup handle).isSome then throw .malformed
        else directives versioned ((handle, beginning) :: handles) fuel
      | .other => directives versioned handles fuel
    | _ => modify fun s => { s with handles := handles ++ standardHandles }

/-- The mark in front of a document, after its directives. -/
def documentMark : Assembler Unit := do
  directives false [] ((← get).lexemes.length + 1)
  if (← peek) = .documentStart then skip else throw .malformed

/-- The node that fills the first document, if there is one. -/
def document : Assembler (Option Nat) := do
  let fuel := 4 * (← get).lexemes.length + 4
  match ← peek with
  | .textEnd => return none
  | .directive _ | .documentStart =>
    documentMark
    return some (← nodeBefore fuel .block endsDocument)
  | _ =>
    modify fun s => { s with handles := standardHandles }
    return some (← node fuel .block)

/-- The ends of a document. -/
def documentEnds : Nat → Assembler Unit
  | 0 => throw .malformed
  | fuel + 1 => do
    if (← peek) = .documentEnd then
      skip
      documentEnds fuel

/-- The end of the text after the first document. A second document is a fault, and those in the
text in front of it are met before. -/
def finish : Assembler Unit := do
  documentEnds ((← get).lexemes.length + 1)
  if (← peek) ≠ .textEnd then
    documentMark
    throw .malformed

/-- The only document of a text. -/
def whole : Assembler (Option Nat) := do
  match ← document with
  | none => return none
  | some root =>
    finish
    return some root

end Assembler

/-- A graph, and the number of the node that fills a document. -/
structure Rooted where
  graph : Graph
  root : Nat

/-- The graph that the lexemes of a text spell, if the text holds a document. -/
def Rooted.ofLexemes (l : Lexemes) : Except Fault (Option Rooted) := do
  let (root, s) ← Assembler.whole.run { lexemes := l.lexemes, fault := l.fault }
  return root.map fun root => ⟨s.graph, root⟩

end RhythmTree.Document.Yaml
