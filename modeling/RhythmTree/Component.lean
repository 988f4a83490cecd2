import RhythmTree.Document.Basic

/-!
# Components

The musical events that decorate the leaves of a rhythm tree. Every component names the performer
and the instrument that were current when it was read.
-/

namespace RhythmTree

open Decimal (Binary64)

/-- A musical event. -/
inductive Event
  /-- Pitches sounding together, counted in semitones. -/
  | pitch (values : List Binary64)
  /-- A dynamic such as `mf`. -/
  | dynamic (marking : Text)
  /-- The start of a dynamic that extends over several notes. -/
  | dynamicStart
  /-- The end of a dynamic that extends over several notes. -/
  | dynamicStop
  /-- Articulation markings on one note. -/
  | articulation (markings : List Text)
  | slurStart
  | slurStop
  | extensionStart
  | extensionStop
  | rest
  deriving DecidableEq, Repr

/-- The word for the kind of an event. -/
def Event.kind : Event → String
  | .pitch _ => "pitch"
  | .dynamic _ => "dynamic_marking"
  | .dynamicStart => "dynamic_marking_spanner_start"
  | .dynamicStop => "dynamic_marking_spanner_stop"
  | .articulation _ => "articulation"
  | .slurStart => "slur_start"
  | .slurStop => "slur_stop"
  | .extensionStart => "extension_start"
  | .extensionStop => "extension_stop"
  | .rest => "rest"

/-- The fields that an event has beside its kind. -/
def Event.payload : Event → Document.Fields
  | .pitch values => [("values", .list (values.map .float))]
  | .dynamic marking => [("value", .text marking)]
  | .articulation markings => [("values", .texts markings)]
  | _ => []

/-- An event with the performer and the instrument that play it. -/
structure Component where
  /-- The performer that was current. -/
  performer : Text
  /-- The instrument that was current. -/
  instrument : Text
  /-- What is played. -/
  event : Event
  deriving DecidableEq, Repr

/-- A component as a record. -/
def Component.toDocument (c : Component) : Document :=
  let context : Document.Fields :=
    [("performer_id", .text c.performer), ("instrument_id", .text c.instrument),
      ("kind", .text c.event.kind)]
  .record (context ++ c.event.payload)

end RhythmTree
