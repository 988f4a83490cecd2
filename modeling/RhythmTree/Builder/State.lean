import RhythmTree.Builder.Finding
import RhythmTree.Builder.Instruction
import RhythmTree.Score
import RhythmTree.Stack

/-!
# The state of a builder

What a builder knows between two tokens, and what each instruction changes. The open nodes all
belong to the latest tree, so they are kept by their addresses there. Three amounts of time place
the trees: where the current measure starts, how much time has elapsed in it, and where the latest
tree ends.
-/

namespace RhythmTree

/-- What a builder knows between two tokens. -/
structure BuilderState where
  /-- The open nodes of the latest tree. -/
  stack : Stack Address := .empty
  /-- Where the next tree goes. -/
  mode : StackMode := .measure
  /-- The leaf that events are attached to. -/
  leaf : Option Place := none
  /-- Where the current measure starts. -/
  measureStart : Duration := .zero
  /-- The time elapsed in the current measure. -/
  elapsed : Duration := .zero
  /-- The time reached by the latest tree. -/
  position : Duration := .zero
  /-- How many levels were around the latest node. -/
  depth : Nat := 0
  performer : Option Text := none
  instrument : Option Text := none
  /-- The key that the next value of metadata is stored under. -/
  pendingKey : Option Text := none
  title : Text := ""
  metadata : Table Text Text := .empty
  measures : List Measure := []
  forest : Forest := []
  tempi : List Tempo := []
  rehearsals : List Rehearsal := []
  performers : Table Text Instruments := .empty
  findings : List Finding := []

namespace BuilderState

/-- Records a finding. -/
def record (f : Finding) (s : BuilderState) : BuilderState :=
  { s with findings := s.findings ++ [f] }

/-! ## Measures and modes -/

/-- Gives the last measure the time that has elapsed in it; the next one starts where it ends. -/
def closeMeasure (s : BuilderState) : BuilderState :=
  if s.measures.isEmpty then s
  else
    let last := s.measures.length - 1
    { s with
      measures := s.measures.modify last fun m => { m with duration := s.elapsed }
      measureStart := s.measureStart + s.elapsed }

/-- Adds a measure after the others, with the next number. -/
def appendMeasure (s : BuilderState) : BuilderState :=
  { s with
    measures := s.measures ++ [{ number := s.measures.length + 1, offset := s.measureStart }]
    elapsed := .zero
    mode := .measure }

/-- Closes the current measure and opens the next one. -/
def openMeasure (s : BuilderState) : BuilderState := s.closeMeasure.appendMeasure

/-- Switches the mode; the mode of the measure goes back to the start of the measure. -/
def setMode (mode : StackMode) (s : BuilderState) : BuilderState :=
  match mode with
  | .measure => { s with mode := .measure, elapsed := .zero }
  | mode => { s with mode := mode }

/-! ## Trees -/

/-- The innermost open node. -/
def openNode? (s : BuilderState) : Option Tree :=
  s.stack.top?.bind fun path => s.forest.subtreeAt ⟨s.forest.length - 1, path⟩

/-- Takes the time of an open node back from the time elapsed in the measure, down to zero. -/
def stepBack (index : Nat) (back : Duration) (s : BuilderState) : BuilderState :=
  match s.elapsed.sub? back with
  | some rest => { s with elapsed := rest }
  | none => { s.record (.clamped index back s.elapsed) with elapsed := .zero }

/-- Where the mode puts the next tree, and the state with its time set to that point. -/
def placeRoot (index : Nat) (s : BuilderState) : Duration × BuilderState :=
  match s.mode with
  | .measure => (s.measureStart, { s with position := s.measureStart })
  | .increment => (s.position, s)
  | .decrement =>
    match s.openNode? with
    | none => (.zero, s)
    | some t =>
      (t.label.offset, stepBack index t.label.duration { s with position := t.label.offset })

/-- Adds a tree that is a single node, which becomes the only open one. -/
def addRootAt (duration offset : Duration) (s : BuilderState) : BuilderState :=
  { s with
    forest := s.forest ++ [.ofDuration duration offset]
    stack := .reseed []
    position := s.position + duration
    elapsed := s.elapsed + duration
    depth := 0 }

/-- Adds a tree where the mode puts it. -/
def addRoot (index : Nat) (duration : Duration) (s : BuilderState) : BuilderState :=
  let (offset, placed) := s.placeRoot index
  placed.addRootAt duration offset

/-- Closes the open nodes that a node inside fewer levels has left. -/
def closeLevels (index depth : Nat) (s : BuilderState) : BuilderState :=
  if depth < s.depth then
    let amount := s.depth - depth
    let closed := s.stack.closable amount
    let popped := { s with stack := s.stack.pop amount }
    if closed < amount then popped.record (.underflow index amount closed) else popped
  else s

/-- Adds a child to the innermost open node, and gives its place. -/
def attachChild (index : Nat) (identifier : String) (beats : Int) (depth : Nat)
    (s : BuilderState) : Option Place × BuilderState :=
  match s.stack.top? with
  | none => (none, s.record (.noContainer index identifier beats))
  | some path =>
    let parent : Place := ⟨s.forest.length - 1, path⟩
    (some (s.forest.nextChild parent),
      { s with forest := s.forest.addChild beats parent, depth := depth })

/-- Closes what the level of a node has left and adds the node to the innermost open one. -/
def attachNode (index : Nat) (identifier : String) (beats : Int) (level : Level)
    (s : BuilderState) : Option Place × BuilderState :=
  (s.closeLevels index level.outer).attachChild index identifier beats level.outer

/-- Adds a node that is open for later nodes. -/
def addInner (index : Nat) (identifier : String) (beats : Int) (level : Level)
    (s : BuilderState) : BuilderState :=
  match s.attachNode index identifier beats level with
  | (none, after) => after
  | (some place, after) => { after with stack := after.stack.push place.path }

/-- Adds a node that later events are attached to. -/
def addLeaf (index : Nat) (identifier : String) (beats : Int) (level : Level)
    (s : BuilderState) : BuilderState :=
  match s.attachNode index identifier beats level with
  | (none, after) => after
  | (some place, after) => { after with leaf := some place }

/-! ## Values of the score -/

/-- Stores a value of metadata under the pending key; the key of the title sets the title too. -/
def storeValue (index : Nat) (value : Text) (s : BuilderState) : BuilderState :=
  match s.pendingKey with
  | none => s.record (.orphanValue index value)
  | some key =>
    { s with
      metadata := s.metadata.put key value
      title := if key = Keyword.title.spelling then value else s.title
      pendingKey := none }

/-- Adds a rehearsal marking at the start of the current measure. -/
def markRehearsal (label : Text) (s : BuilderState) : BuilderState :=
  { s with rehearsals := s.rehearsals ++ [⟨s.rehearsals.length, label, s.measureStart⟩] }

/-- Adds a change of tempo at the start of the current measure. -/
def markTempo (value subdivision : Int) (s : BuilderState) : BuilderState :=
  { s with tempi := s.tempi ++ [⟨value, subdivision, s.measureStart⟩] }

/-- Gives a performer a place in the table, and takes no instruments over. -/
def rejectDeclaration (index : Nat) (performer typeName : Text) (s : BuilderState) :
    BuilderState :=
  { s.record (.unknownInstrument index performer typeName) with
    performers := s.performers.putIfAbsent performer .empty }

/-! ## Events -/

/-- What an event would lack. -/
def lacks (s : BuilderState) : List Lack :=
  (if s.leaf.isNone then [.leaf] else []) ++ (if s.performer.isNone then [.performer] else []) ++
    if s.instrument.isNone then [.instrument] else []

/-- Attaches an event to the current leaf. -/
def attachEvent (index : Nat) (identifier : String) (s : BuilderState) (event : Event) :
    BuilderState :=
  match s.leaf, s.performer, s.instrument with
  | some place, some performer, some instrument =>
    { s with forest := s.forest.addComponent ⟨performer, instrument, event⟩ place }
  | _, _, _ => s.record (.missingContext index identifier s.lacks)

/-- Attaches events to the current leaf one after the other. -/
def attach (index : Nat) (identifier : String) (events : List Event) (s : BuilderState) :
    BuilderState :=
  events.foldl (attachEvent index identifier) s

/-! ## Instructions -/

/-- Carries out the instruction of the token with a number and an identifier. -/
def perform (index : Nat) (identifier : String) (instruction : Instruction) (s : BuilderState) :
    BuilderState :=
  match instruction with
  | .openMeasure => s.openMeasure
  | .setMode mode => s.setMode mode
  | .addRoot duration => s.addRoot index duration
  | .addInner beats level => s.addInner index identifier beats level
  | .addLeaf beats level => s.addLeaf index identifier beats level
  | .setPerformer id => { s with performer := some id }
  | .setInstrument id => { s with instrument := some id }
  | .setTitle title => { s with title := title }
  | .setKey key => { s with pendingKey := some key }
  | .storeValue value => s.storeValue index value
  | .markRehearsal label => s.markRehearsal label
  | .markTempo value subdivision => s.markTempo value subdivision
  | .declare performer instruments =>
    { s with performers := s.performers.put performer instruments }
  | .rejectDeclaration performer typeName => s.rejectDeclaration index performer typeName
  | .attach events => s.attach index identifier events

/-! ## The score -/

/-- What normalization finds in a forest, tree by tree. -/
def indivisible (f : Forest) : List Finding :=
  f.flatMap fun t => (Tree.indivisible [] t).map .indivisible

/-- The score of a state after the last token: the last measure is closed and every tree is
normalized. -/
def toScore (s : BuilderState) : Score :=
  let closed := s.closeMeasure
  { title := closed.title
    metadata := closed.metadata
    measures := closed.measures
    forest := closed.forest.map Tree.normalize
    tempi := closed.tempi
    rehearsals := closed.rehearsals
    performers := closed.performers
    report := .ofFindings (closed.findings ++ indivisible closed.forest) }

end BuilderState

end RhythmTree
