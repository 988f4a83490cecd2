import RhythmTree.Component
import RhythmTree.Instrument
import RhythmTree.Keyword
import RhythmTree.Table
import RhythmTree.Text.Quoted
import RhythmTree.Token

/-!
# Instructions

What a token of a stream asks for. A token is read by itself, without regard to the tokens before
it: it gives an instruction, or it is malformed, or nothing in it is recognized. Atomic tokens and
containers with the same identifier may mean different things; events and switches without payload
mean the same in either form.
-/

namespace RhythmTree

/-- Where the next tree is placed in time. -/
inductive StackMode
  /-- At the start of the current measure. -/
  | measure
  /-- Right after the tree before it. -/
  | increment
  /-- At the start of the innermost open node. -/
  | decrement
  deriving DecidableEq, Repr

/-- The mode that a mark stands for. -/
def StackMode.ofMark? (mark : Text) : Option StackMode :=
  match mark.string? with
  | some "|" => some .measure
  | some "+" => some .increment
  | some "-" => some .decrement
  | _ => none

/-- What is wrong with a token that carries a keyword. -/
inductive Flaw
  | notDuration
  | notIndented
  | notText
  | notInt
  | unknownMode (mark : Text)
  | noTempo
  | noPerformer
  deriving DecidableEq, Repr

/-- What reports say about a flaw. -/
def Flaw.message : Flaw → String
  | .notDuration => "expected a duration payload"
  | .notIndented => "expected an integer payload with an indentation level"
  | .notText => "expected a string payload"
  | .notInt => "expected an integer payload"
  | .unknownMode mark => "unknown stack mode " ++ mark.quote
  | .noTempo => "missing tempo Value"
  | .noPerformer => "missing performer id"

/-- A flaw and the identifier of the token that has it. -/
structure Malformation where
  /-- The identifier of the token, which may be nested in the token that is read. -/
  identifier : String
  /-- What is wrong with it. -/
  flaw : Flaw
  deriving DecidableEq, Repr

/-- What a well-formed token asks for. -/
inductive Instruction
  | openMeasure
  | setMode (mode : StackMode)
  | addRoot (duration : Duration)
  /-- Adds a node that later nodes are attached to. -/
  | addInner (beats : Int) (level : Level)
  /-- Adds a node that later events are attached to. -/
  | addLeaf (beats : Int) (level : Level)
  | setPerformer (id : Text)
  | setInstrument (id : Text)
  | setTitle (title : Text)
  | setKey (key : Text)
  | storeValue (value : Text)
  | markRehearsal (label : Text)
  | markTempo (value subdivision : Int)
  | declare (performer : Text) (instruments : Table Text Instrument)
  /-- A declaration with an instrument type that does not exist. -/
  | rejectDeclaration (performer typeName : Text)
  | attach (events : List Event)

/-- What reading a token gives. -/
inductive Reading
  /-- The identifier means nothing for a token of this form. -/
  | unrecognized
  | instruct (instruction : Instruction)
  /-- The token is malformed, after some events that were well-formed. -/
  | malformed (before : List Event) (malformation : Malformation)

/-- The note that has the beat when a tempo does not name one. -/
def defaultSubdivision : Int := 4

namespace Token

/-- The keyword that a token carries. -/
def keyword? (t : Token) : Option Keyword := Keyword.ofText? t.identifier

/-- The text that a token carries. -/
def textPayload : Token → Except Malformation Text
  | .text _ value => .ok value
  | t => .error ⟨t.name, .notText⟩

/-- The whole number that a token carries. -/
def intPayload : Token → Except Malformation Int
  | .int _ value _ => .ok value
  | t => .error ⟨t.name, .notInt⟩

/-- The floating point number that a token carries. -/
def float? : Token → Option Decimal.Binary64
  | .float _ value => some value
  | _ => none

/-- The text that a token carries, if it does. -/
def text? : Token → Option Text
  | .text _ value => some value
  | _ => none

end Token

namespace Reading

/-- The reading of a token whose payload is looked at first. -/
def ofPayload {α : Type} (payload : Except Malformation α) (instruction : α → Instruction) :
    Reading :=
  match payload with
  | .ok value => .instruct (instruction value)
  | .error malformation => .malformed [] malformation

/-- The reading of a keyword that means the same in an atomic token and in a container. -/
def shared? : Keyword → Option Instruction
  | .measure => some .openMeasure
  | .stackModeMeasure => some (.setMode .measure)
  | .stackModeIncrement => some (.setMode .increment)
  | .stackModeDecrement => some (.setMode .decrement)
  | .rest => some (.attach [.rest])
  | .slurStart => some (.attach [.slurStart])
  | .slurStop => some (.attach [.slurStop])
  | .extensionStart => some (.attach [.extensionStart])
  | .extensionStop => some (.attach [.extensionStop])
  | _ => none

/-- The reading of a node token. -/
def ofNode (t : Token) (instruction : Int → Level → Instruction) : Reading :=
  match t with
  | .int _ beats (some level) => .instruct (instruction beats level)
  | _ => .malformed [] ⟨t.name, .notIndented⟩

/-- The reading of a token that switches to the mode it names. -/
def ofMode (t : Token) : Reading :=
  match t.textPayload with
  | .error malformation => .malformed [] malformation
  | .ok mark =>
    match StackMode.ofMark? mark with
    | some mode => .instruct (.setMode mode)
    | none => .malformed [] ⟨t.name, .unknownMode mark⟩

/-- The reading of an atomic token. -/
def ofAtom (keyword : Keyword) (t : Token) : Reading :=
  match keyword with
  | .stackMode => ofMode t
  | .rootDuration =>
    match t with
    | .duration _ value => .instruct (.addRoot value)
    | _ => .malformed [] ⟨t.name, .notDuration⟩
  | .innerNode => ofNode t .addInner
  | .leafNode => ofNode t .addLeaf
  | .performerId => ofPayload t.textPayload .setPerformer
  | .instrumentId => ofPayload t.textPayload .setInstrument
  | .title => ofPayload t.textPayload .setTitle
  | .metadataKey => ofPayload t.textPayload .setKey
  | .metadataValue => ofPayload t.textPayload .storeValue
  | .rehearsalMarking => ofPayload t.textPayload .markRehearsal
  | _ =>
    match shared? keyword with
    | some instruction => .instruct instruction
    | none => .unrecognized

/-- The events of a dynamic up to the first malformed token, and that malformation. -/
def dynamics : List Token → List Event × Option Malformation
  | [] => ([], none)
  | t :: rest =>
    let (events, malformation) := dynamics rest
    match t.keyword? with
    | some .value =>
      match t.textPayload with
      | .ok marking => (.dynamic marking :: events, malformation)
      | .error malformation => ([], some malformation)
    | some .spannerStart => (.dynamicStart :: events, malformation)
    | some .spannerStop => (.dynamicStop :: events, malformation)
    | _ => (events, malformation)

/-- The tempo and the note that has the beat, the last of each among some tokens. -/
def tempo (value : Option Int) (subdivision : Int) :
    List Token → Except Malformation (Option Int × Int)
  | [] => .ok (value, subdivision)
  | t :: rest =>
    match t.keyword? with
    | some .value => t.intPayload.bind fun n => tempo (some n) subdivision rest
    | some .subdivisionValue => t.intPayload.bind fun n => tempo value n rest
    | _ => tempo value subdivision rest

/-- The reading of a tempo marking. -/
def ofTempo (name : String) (tokens : List Token) : Reading :=
  match tempo none defaultSubdivision tokens with
  | .error malformation => .malformed [] malformation
  | .ok (none, _) => .malformed [] ⟨name, .noTempo⟩
  | .ok (some value, subdivision) => .instruct (.markTempo value subdivision)

/-- The performer of a declaration: the first one named inside, or else the opening value. -/
def performer (opening : Option Text) (tokens : List Token) :
    Except Malformation (Option Text) :=
  match tokens.find? fun t => t.keyword? = some .performerId with
  | some t => t.textPayload.map some
  | none => .ok opening

/-- The instruments that the tokens of a declaration add to a table. Every type goes to the
instrument named last; a type that does not exist is the error `some`. -/
def instruments (current : Option Text) (table : Table Text Instrument) :
    List Token → Except (Malformation ⊕ Text) (Table Text Instrument)
  | [] => .ok table
  | t :: rest =>
    match t.keyword? with
    | some .instrumentId =>
      match t.textPayload with
      | .ok id => instruments (some id) table rest
      | .error malformation => .error (.inl malformation)
    | some .instrumentType =>
      match t.textPayload with
      | .error malformation => .error (.inl malformation)
      | .ok typeName =>
        match Instrument.ofText? typeName with
        | none => .error (.inr typeName)
        | some kind =>
          instruments current (current.elim table fun id => table.put id kind) rest
    | _ => instruments current table rest

/-- The reading of a declaration for a performer. -/
def ofInstruments (performer : Text) (tokens : List Token) : Reading :=
  match instruments none .empty tokens with
  | .ok table => .instruct (.declare performer table)
  | .error (.inl malformation) => .malformed [] malformation
  | .error (.inr typeName) => .instruct (.rejectDeclaration performer typeName)

/-- The reading of a declaration. -/
def ofDeclaration (name : String) (opening : Option Text) (tokens : List Token) :
    Reading :=
  match performer opening tokens with
  | .error malformation => .malformed [] malformation
  | .ok none => .malformed [] ⟨name, .noPerformer⟩
  | .ok (some id) =>
    if id = "" then .malformed [] ⟨name, .noPerformer⟩ else ofInstruments id tokens

/-- The reading of a dynamic. -/
def ofDynamics (tokens : List Token) : Reading :=
  match dynamics tokens with
  | (events, none) => .instruct (.attach events)
  | (events, some malformation) => .malformed events malformation

/-- The reading of a container. -/
def ofContainer (keyword : Keyword) (name : String) (opening : Option Text)
    (tokens : List Token) : Reading :=
  match keyword with
  | .performerDeclaration => ofDeclaration name opening tokens
  | .tempoMarking => ofTempo name tokens
  | .pitch => .instruct (.attach [.pitch (tokens.filterMap Token.float?)])
  | .articulation => .instruct (.attach [.articulation (tokens.filterMap Token.text?)])
  | .dynamicMarking => ofDynamics tokens
  | _ =>
    match shared? keyword with
    | some instruction => .instruct instruction
    | none => .unrecognized

/-- The reading of a token. -/
def ofToken (t : Token) : Reading :=
  match t.keyword? with
  | none => .unrecognized
  | some keyword =>
    match t with
    | .container _ opening tokens => ofContainer keyword t.name opening tokens
    | t => ofAtom keyword t

end Reading

end RhythmTree
