import RhythmTree.Forest
import RhythmTree.Instrument
import RhythmTree.Report
import RhythmTree.Table

/-!
# Scores

What a parsed stream describes: measures, the forest of normalized rhythm trees, tempo and
rehearsal markings, the instruments of every performer, and the report of the parse. A score
answers which measure sounds at a time and which trees overlap a span, and it can be written as a
record, in full or as a summary.
-/

namespace RhythmTree

/-- A bar of a score. -/
structure Measure where
  /-- The number, counted from one. -/
  number : Int
  /-- Where the measure starts. -/
  offset : Duration
  /-- How long the measure lasts. -/
  duration : Duration := .zero
  deriving DecidableEq, Repr

namespace Measure

/-- Where a measure ends. -/
def stop (m : Measure) : Duration := m.offset + m.duration

/-- The time that a measure occupies. -/
def span (m : Measure) : Span := .ofLength m.duration m.offset

/-- A measure as a record. -/
def toDocument (m : Measure) : Document :=
  .record [("number", .int m.number), ("offset", .text m.offset.text),
    ("duration", .text m.duration.text)]

end Measure

/-- A change of tempo. -/
structure Tempo where
  /-- The number of beats in a minute. -/
  value : Int
  /-- The note that has the beat. -/
  subdivision : Int
  /-- Where the tempo starts. -/
  offset : Duration
  deriving DecidableEq, Repr

/-- A change of tempo as a record. -/
def Tempo.toDocument (t : Tempo) : Document :=
  .record [("value", .int t.value), ("subdivision_value", .int t.subdivision),
    ("offset", .text t.offset.text)]

/-- A rehearsal letter or number. -/
structure Rehearsal where
  /-- The number in order of appearance, counted from zero. -/
  index : Int
  /-- The text of the marking. -/
  label : Text
  /-- Where the marking stands. -/
  offset : Duration
  deriving DecidableEq, Repr

/-- A rehearsal marking as a record. -/
def Rehearsal.toDocument (r : Rehearsal) : Document :=
  .record [("index", .int r.index), ("type", .text r.label), ("offset", .text r.offset.text)]

/-- The types of the instruments of a performer, by instrument. -/
abbrev Instruments := Table Text Instrument

/-- A parsed score. -/
structure Score where
  title : Text := ""
  metadata : Table Text Text := .empty
  measures : List Measure := []
  /-- The trees in the order of the stream. -/
  forest : Forest := []
  tempi : List Tempo := []
  rehearsals : List Rehearsal := []
  /-- The instruments of every performer, in the order of declaration. -/
  performers : Table Text Instruments := .empty
  report : Report := {}

namespace Score

/-- The performers in the order of declaration. -/
def performerIds (s : Score) : List Text := s.performers.keys

/-- The instruments declared for a performer. -/
def instrumentsFor (s : Score) (performer : Text) : Instruments :=
  (s.performers.get? performer).getD .empty

/-- The end of the latest measure or tree. -/
def totalDuration (s : Score) : Duration :=
  (s.measures.map Measure.stop ++ s.forest.map fun t => t.label.stop).foldl max .zero

/-- The measure that sounds at a time; a boundary belongs to the measure that starts there. -/
def measureAt? (s : Score) (t : Duration) : Option Measure :=
  ((s.measures.takeWhile fun m => m.offset ≤ t).getLast?).filter fun m => t ≤ m.stop

/-- The trees whose time overlaps a span, with their numbers. -/
def treesIn (s : Score) (span : Span) : List (Nat × Tree) :=
  (s.forest.zipIdx.map fun (t, i) => (i, t)).filter fun (_, t) =>
    t.label.span.relationship span = .overlapping

/-- The time that all trees together occupy. -/
def span (s : Score) : Span := .cover (s.forest.map fun t => t.label.span)

/-- The instruments of a performer as a record. -/
def instrumentsDocument (instruments : Instruments) : Document :=
  .record (instruments.entries.map fun (id, kind) => (id, .text kind.name))

/-- A score as a record. -/
def toDocument (s : Score) : Document :=
  .record [
    ("title", .text s.title),
    ("metadata", .record (s.metadata.entries.map fun (key, value) => (key, .text value))),
    ("measures", .list (s.measures.map Measure.toDocument)),
    ("duration_nodes", .list (Tree.toDocuments s.forest)),
    ("tempo_markings", .list (s.tempi.map Tempo.toDocument)),
    ("rehearsal_markings", .list (s.rehearsals.map Rehearsal.toDocument)),
    ("performers", .record (s.performers.entries.map fun (id, instruments) =>
      (id, instrumentsDocument instruments))),
    ("diagnostics", s.report.toDocument)]

/-- The number of components on the leaves of a score. -/
def componentCount (s : Score) : Nat := (s.forest.leaves.flatMap Node.components).length

/-- The main figures of a score as a record. -/
def summary (s : Score) : Document :=
  .record [
    ("title", .text s.title),
    ("total_measures", .count s.measures.length),
    ("total_duration", .text s.totalDuration.text),
    ("root_nodes", .count s.forest.length),
    ("leaves", .count s.forest.leaves.length),
    ("components", .count s.componentCount),
    ("performers", .texts s.performerIds),
    ("span", s.span.toDocument),
    ("issues", .record [
      ("errors", .count s.report.errors.length),
      ("warnings", .count s.report.warnings.length)])]

end Score

end RhythmTree
