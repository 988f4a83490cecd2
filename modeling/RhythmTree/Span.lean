import RhythmTree.Document.Basic
import RhythmTree.Duration.Basic

/-!
# Spans of time

Closed intervals of musical time and how two of them touch. A span covers its two ends; its length
is the time between them. Spans that start together overlap, even when both are single points;
otherwise the end of the one that starts first is compared with the start of the other.
-/

namespace RhythmTree

/-- A closed interval of musical time. -/
structure Span where
  /-- The first point of time. -/
  start : Duration
  /-- The last point of time. -/
  stop : Duration
  /-- A span does not end before it starts. -/
  start_le_stop : start ≤ stop
  deriving DecidableEq

/-- How two spans touch. -/
inductive Relationship
  /-- No point in common. -/
  | none
  /-- One boundary point in common. -/
  | adjacent
  /-- More than a boundary in common, or a common start. -/
  | overlapping
  deriving DecidableEq, Repr

/-- The word for a relationship. -/
def Relationship.text : Relationship → String
  | .none => "none"
  | .adjacent => "adjacent"
  | .overlapping => "overlapping"

namespace Duration

theorem sub_nonneg_of_le {a b : Duration} (h : a ≤ b) : 0 ≤ b.value - a.value :=
  (Rat.le_iff_sub_nonneg a.value b.value).1 h

theorem le_of_not_le {a b : Duration} (h : ¬a ≤ b) : b ≤ a :=
  Rat.le_of_lt (Rat.not_le.1 h)

theorem le_add_right (a b : Duration) : a ≤ a + b := by
  rw [le_def, value_add, Rat.le_iff_sub_nonneg]
  have h : a.value + b.value - a.value = b.value := by grind
  rw [h]
  exact b.nonneg

end Duration

namespace Span

/-- The span of a single point at the start of the piece. -/
def zero : Span := ⟨.zero, .zero, Rat.le_refl⟩

instance : Inhabited Span := ⟨zero⟩

/-- The time between two points, if the first is not after the second. -/
def ofEnds? (start stop : Duration) : Option Span :=
  if h : start ≤ stop then some ⟨start, stop, h⟩ else Option.none

/-- The span between two points of time in either order. -/
def between (a b : Duration) : Span :=
  if h : a ≤ b then ⟨a, b, h⟩ else ⟨b, a, Duration.le_of_not_le h⟩

/-- The span that starts at a point and lasts for a time. -/
def ofLength (length start : Duration) : Span :=
  ⟨start, start + length, Duration.le_add_right start length⟩

/-- How long a span lasts. -/
def length (s : Span) : Duration :=
  ⟨s.stop.value - s.start.value, Duration.sub_nonneg_of_le s.start_le_stop⟩

/-- A point of time lies within a span, its ends included. -/
def contains (s : Span) (t : Duration) : Bool := s.start ≤ t && t ≤ s.stop

/-- How a span touches one that does not start before it. -/
def relateOrdered (first second : Span) : Relationship :=
  if first.stop < second.start then .none
  else if second.start < first.stop then .overlapping
  else .adjacent

/-- How two spans touch. -/
def relationship (a b : Span) : Relationship :=
  if a.start < b.start then relateOrdered a b
  else if b.start < a.start then relateOrdered b a
  else .overlapping

/-- The least span that holds two spans. -/
def join (a b : Span) : Span :=
  ⟨min a.start b.start, max a.stop b.stop, by
    have ha := a.start_le_stop
    have hb := b.start_le_stop
    simp only [min, max, Duration.le_def] at *
    split <;> split <;> grind⟩

/-- The least span that holds every span of a list, and the point zero for the empty list. -/
def cover : List Span → Span
  | [] => zero
  | first :: rest => rest.foldl join first

/-- The ends and the length in one line. -/
def text (s : Span) : String :=
  "start: " ++ s.start.text ++ "; stop: " ++ s.stop.text ++ "; total: " ++ s.length.text

/-- The ends and the length as a record. -/
def toDocument (s : Span) : Document :=
  .record [("start", .text s.start.text), ("stop", .text s.stop.text),
    ("duration", .text s.length.text)]

end Span

/-- The message about a span that would end before it starts. -/
def backwardSpanMessage (start stop : Duration) : String :=
  "Span start " ++ start.text ++ " is after stop " ++ stop.text

end RhythmTree
