import RhythmTree.Document.Inline

/-!
# Instruments

The closed vocabulary of instrument types that a performer may declare. Every type has a name in
notation text, and no two types share one.
-/

namespace RhythmTree

/-- A type of instrument. -/
inductive Instrument
  | violin
  | viola
  | violoncello
  | contrabass
  | guitar
  | harp
  | flute
  | oboe
  | clarinet
  | bassClarinet
  | bassoon
  | saxophone
  | horn
  | trumpet
  | trombone
  | tuba
  | piano
  | marimba
  | vibraphone
  | percussion
  | voice
  | noise
  deriving DecidableEq, Repr

namespace Instrument

/-- All types in the order of the vocabulary. -/
def all : List Instrument :=
  [violin, viola, violoncello, contrabass, guitar, harp, flute, oboe, clarinet, bassClarinet,
    bassoon, saxophone, horn, trumpet, trombone, tuba, piano, marimba, vibraphone, percussion,
    voice, noise]

/-- The name of a type in notation text. -/
def name : Instrument → String
  | violin => "Violin"
  | viola => "Viola"
  | violoncello => "Violoncello"
  | contrabass => "Contrabass"
  | guitar => "Guitar"
  | harp => "Harp"
  | flute => "Flute"
  | oboe => "Oboe"
  | clarinet => "Clarinet"
  | bassClarinet => "BassClarinet"
  | bassoon => "Bassoon"
  | saxophone => "Saxophone"
  | horn => "Horn"
  | trumpet => "Trumpet"
  | trombone => "Trombone"
  | tuba => "Tuba"
  | piano => "Piano"
  | marimba => "Marimba"
  | vibraphone => "Vibraphone"
  | percussion => "Percussion"
  | voice => "Voice"
  | noise => "Noise"

/-- The name of a type in capitals, its words divided by underscores. -/
def constantName (i : Instrument) : String :=
  String.ofList <| match i.name.toList with
    | [] => []
    | first :: rest =>
      first.toUpper :: rest.flatMap fun c => if c.isUpper then ['_', c] else [c.toUpper]

/-- The type with a name. -/
def ofName? (text : String) : Option Instrument := all.find? fun i => i.name = text

/-- The type that a text names. -/
def ofText? (t : Text) : Option Instrument := t.string?.bind ofName?

/-- The type that a piece of data names. -/
def ofDocument? : Document → Option Instrument
  | .text name => ofText? name
  | _ => none

/-- The message about data that names no type. -/
def unknownMessage (raw : Document) : String := "Unknown instrument type: " ++ raw.inline

theorem mem_all (i : Instrument) : i ∈ all := by
  cases i <;> decide

/-- Every type is found under its own name. -/
theorem ofName?_name (i : Instrument) : ofName? i.name = some i := by
  cases i <;> decide

/-- What is found under a name has that name. -/
theorem name_of_ofName? {text : String} {i : Instrument} (h : ofName? text = some i) :
    i.name = text := by
  simpa using List.find?_some h

end Instrument

end RhythmTree
