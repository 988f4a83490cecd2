import RhythmTree.Component
import RhythmTree.Schema.Scalar

/-!
# Checked components

A component is a record that names its kind, its performer and its instrument. Dynamics need a
value; pitches and articulations may list values.
-/

namespace RhythmTree.Schema

/-- The check of what an event of a kind has beside the kind, for the kinds that exist. -/
def event? (kind : String) (fields : Document.Fields) : Option (Checked Event) :=
  match kind with
  | "pitch" => some ((withDefault "values" [] (listOf float) fields).map .pitch)
  | "dynamic_marking" => some ((required "value" text fields).map .dynamic)
  | "dynamic_marking_spanner_start" => some (.ok .dynamicStart)
  | "dynamic_marking_spanner_stop" => some (.ok .dynamicStop)
  | "articulation" => some ((withDefault "values" [] (listOf text) fields).map .articulation)
  | "slur_start" => some (.ok .slurStart)
  | "slur_stop" => some (.ok .slurStop)
  | "extension_start" => some (.ok .extensionStart)
  | "extension_stop" => some (.ok .extensionStop)
  | "rest" => some (.ok .rest)
  | _ => none

/-- A component. -/
def component : Document → Checked Component
  | .record fields =>
    match kindOf fields with
    | .error fault => .fail fault
    | .ok kind =>
      match event? kind fields with
      | none => .fail .kindUnknown
      | some event =>
        let place := Checked.both Prod.mk (required "performer_id" text fields)
          (required "instrument_id" text fields)
        (Checked.both (fun place event => Component.mk place.1 place.2 event) place event).under
          (.field kind)
  | _ => .fail .notRecord

end RhythmTree.Schema
