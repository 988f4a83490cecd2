import RhythmTree.Text.Basic

/-!
# Keywords

The identifiers that have a meaning in a token stream. Every keyword has a spelling, and no two
share one; an identifier that spells no keyword means nothing.
-/

namespace RhythmTree

/-- An identifier with a meaning. -/
inductive Keyword
  | measure
  | rootDuration
  | innerNode
  | leafNode
  | stackMode
  | stackModeMeasure
  | stackModeIncrement
  | stackModeDecrement
  | performerId
  | instrumentId
  | instrumentType
  | performerDeclaration
  | title
  | metadataKey
  | metadataValue
  | tempoMarking
  | rehearsalMarking
  | pitch
  | dynamicMarking
  | articulation
  | rest
  | slurStart
  | slurStop
  | extensionStart
  | extensionStop
  | value
  | subdivisionValue
  | spannerStart
  | spannerStop
  deriving DecidableEq, Repr

namespace Keyword

/-- All keywords. -/
def all : List Keyword :=
  [measure, rootDuration, innerNode, leafNode, stackMode, stackModeMeasure, stackModeIncrement,
    stackModeDecrement, performerId, instrumentId, instrumentType, performerDeclaration, title,
    metadataKey, metadataValue, tempoMarking, rehearsalMarking, pitch, dynamicMarking,
    articulation, rest, slurStart, slurStop, extensionStart, extensionStop, value,
    subdivisionValue, spannerStart, spannerStop]

/-- The spelling of a keyword. -/
def spelling : Keyword → String
  | measure => "Measure"
  | rootDuration => "RootNodeDuration"
  | innerNode => "InternalNodeDuration"
  | leafNode => "LeafNodeDuration"
  | stackMode => "DurationNodeStackMode"
  | stackModeMeasure => "DurationNodeStackModeMeasure"
  | stackModeIncrement => "DurationNodeStackModeIncrement"
  | stackModeDecrement => "DurationNodeStackModeDecrement"
  | performerId => "PerformerID"
  | instrumentId => "InstrumentID"
  | instrumentType => "InstrumentType"
  | performerDeclaration => "PerformerDeclaration"
  | title => "Title"
  | metadataKey => "MetadataKey"
  | metadataValue => "MetadataValue"
  | tempoMarking => "TempoMarking"
  | rehearsalMarking => "RehearsalMarking"
  | pitch => "Pitch"
  | dynamicMarking => "DynamicMarking"
  | articulation => "Articulation"
  | rest => "Rest"
  | slurStart => "SlurStart"
  | slurStop => "SlurStop"
  | extensionStart => "ExtensionStart"
  | extensionStop => "ExtensionStop"
  | value => "Value"
  | subdivisionValue => "SubdivisionValue"
  | spannerStart => "SpannerStart"
  | spannerStop => "SpannerStop"

/-- The keyword with a spelling. -/
def ofSpelling? (text : String) : Option Keyword := all.find? fun k => k.spelling = text

/-- The keyword that a text spells. -/
def ofText? (t : Text) : Option Keyword := t.string?.bind ofSpelling?

theorem mem_all (k : Keyword) : k ∈ all := by
  cases k <;> decide

/-- Every keyword is found under its own spelling. -/
theorem ofSpelling?_spelling (k : Keyword) : ofSpelling? k.spelling = some k := by
  cases k <;> decide

/-- What is found under a spelling is spelled that way. -/
theorem spelling_of_ofSpelling? {text : String} {k : Keyword} (h : ofSpelling? text = some k) :
    k.spelling = text := by
  simpa using List.find?_some h

end Keyword

end RhythmTree
