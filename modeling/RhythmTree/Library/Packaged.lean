import RhythmTree.Library.Basic

/-!
# Packaged streams

The streams that every library without a shared directory of its own offers.
-/

namespace RhythmTree.Packaged

/-- The text of some lines. -/
def textOfLines (lines : List String) : String := String.join (lines.map (· ++ "\n"))

/-- A triplet inside the first beat of a tree. -/
def nestedTriplet : String := textOfLines
  ["name: nested-triplet",
    "description: A triplet nested inside the first beat, an appended group, then a second measure",
    "tokens:",
    "  - kind: string",
    "    identifier: MetadataKey",
    "    value: Title",
    "  - kind: string",
    "    identifier: MetadataValue",
    "    value: Nested Triplet",
    "  - kind: string",
    "    identifier: MetadataKey",
    "    value: Composer",
    "  - kind: string",
    "    identifier: MetadataValue",
    "    value: Anonymous",
    "  - kind: container",
    "    identifier: PerformerDeclaration",
    "    opening_value: pf",
    "    tokens:",
    "      - kind: string",
    "        identifier: PerformerID",
    "        value: pf",
    "      - kind: string",
    "        identifier: InstrumentID",
    "        value: rh",
    "      - kind: string",
    "        identifier: InstrumentType",
    "        value: Piano",
    "      - kind: string",
    "        identifier: InstrumentID",
    "        value: lh",
    "      - kind: string",
    "        identifier: InstrumentType",
    "        value: Piano",
    "  - kind: string",
    "    identifier: PerformerID",
    "    value: pf",
    "  - kind: string",
    "    identifier: InstrumentID",
    "    value: rh",
    "  - kind: container",
    "    identifier: Measure",
    "  - kind: container",
    "    identifier: TempoMarking",
    "    tokens:",
    "      - kind: int",
    "        identifier: Value",
    "        value: 72",
    "      - kind: int",
    "        identifier: SubdivisionValue",
    "        value: 4",
    "  - kind: string",
    "    identifier: RehearsalMarking",
    "    value: A",
    "  - kind: duration",
    "    identifier: RootNodeDuration",
    "    value: '3/4'",
    "  - kind: int",
    "    identifier: InternalNodeDuration",
    "    value: 1",
    "    indentation_level: 1",
    "  - kind: int",
    "    identifier: LeafNodeDuration",
    "    value: 1",
    "    indentation_level: 2",
    "  - kind: container",
    "    identifier: SlurStart",
    "  - kind: int",
    "    identifier: LeafNodeDuration",
    "    value: 1",
    "    indentation_level: 2",
    "  - kind: int",
    "    identifier: LeafNodeDuration",
    "    value: 1",
    "    indentation_level: 2",
    "  - kind: container",
    "    identifier: SlurStop",
    "  - kind: int",
    "    identifier: LeafNodeDuration",
    "    value: 1",
    "    indentation_level: 1",
    "  - kind: int",
    "    identifier: LeafNodeDuration",
    "    value: 1",
    "    indentation_level: 1",
    "  - kind: string",
    "    identifier: DurationNodeStackMode",
    "    value: '+'",
    "  - kind: duration",
    "    identifier: RootNodeDuration",
    "    value: '1/4'",
    "  - kind: int",
    "    identifier: LeafNodeDuration",
    "    value: 1",
    "    indentation_level: 1",
    "  - kind: container",
    "    identifier: Rest",
    "  - kind: container",
    "    identifier: Measure",
    "  - kind: duration",
    "    identifier: RootNodeDuration",
    "    value: '1'",
    "  - kind: int",
    "    identifier: LeafNodeDuration",
    "    value: 3",
    "    indentation_level: 1",
    "  - kind: container",
    "    identifier: Articulation",
    "    tokens:",
    "      - kind: string",
    "        identifier: Value",
    "        value: '>'",
    "      - kind: string",
    "        identifier: Value",
    "        value: '.'",
    "  - kind: int",
    "    identifier: LeafNodeDuration",
    "    value: 1",
    "    indentation_level: 1"]

/-- One tree of two equal notes. -/
def twoHalves : String := textOfLines
  ["name: two-halves",
    "description: One measure holding a single group split into two equal notes",
    "tokens:",
    "  - kind: string",
    "    identifier: Title",
    "    value: Two Halves",
    "  - kind: container",
    "    identifier: PerformerDeclaration",
    "    opening_value: vn",
    "    tokens:",
    "      - kind: string",
    "        identifier: PerformerID",
    "        value: vn",
    "      - kind: string",
    "        identifier: InstrumentID",
    "        value: vn",
    "      - kind: string",
    "        identifier: InstrumentType",
    "        value: Violin",
    "  - kind: container",
    "    identifier: Measure",
    "  - kind: string",
    "    identifier: PerformerID",
    "    value: vn",
    "  - kind: string",
    "    identifier: InstrumentID",
    "    value: vn",
    "  - kind: duration",
    "    identifier: RootNodeDuration",
    "    value: '4'",
    "  - kind: int",
    "    identifier: LeafNodeDuration",
    "    value: 1",
    "    indentation_level: 1",
    "  - kind: container",
    "    identifier: Pitch",
    "    tokens:",
    "      - kind: float",
    "        identifier: Value",
    "        value: 60.0",
    "  - kind: container",
    "    identifier: DynamicMarking",
    "    tokens:",
    "      - kind: string",
    "        identifier: Value",
    "        value: mf",
    "  - kind: int",
    "    identifier: LeafNodeDuration",
    "    value: 1",
    "    indentation_level: 1",
    "  - kind: container",
    "    identifier: Pitch",
    "    tokens:",
    "      - kind: float",
    "        identifier: Value",
    "        value: 62.0"]

/-- The directory of the packaged streams. -/
def directory : Path := .ofText "packaged"

/-- The packaged streams as files. -/
def files : FileTree :=
  .ofTexts [("packaged/nested-triplet.yaml", nestedTriplet),
    ("packaged/two-halves.yaml", twoHalves)]

end RhythmTree.Packaged
