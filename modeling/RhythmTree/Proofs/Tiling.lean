import RhythmTree.Proofs.Durations
import RhythmTree.Tree.Basic

/-!
# Tilings of time

`Tiles a spans b` says that spans lie back to back from `a` to `b`: the first one starts at `a`,
each further one starts where the one before it stops, and the last one stops at `b`.

* `tiles_append`: two tilings that meet are one tiling.
* `Tiles.within`: **every span of a tiling lies between its ends.**
* `Tiles.add_totalLength`: **the lengths of a tiling sum up to the time between its ends.**
-/

namespace RhythmTree

/-! ### Spans -/

namespace Span

/-- A span lasts from its start to its stop. -/
theorem start_add_length (s : Span) : s.start + s.length = s.stop := by
  apply Duration.ext
  simp only [Duration.value_add, length]
  grind

@[simp] theorem length_ofLength (d a : Duration) : (ofLength d a).length = d :=
  Duration.add_left_cancel (start_add_length (ofLength d a))

end Span

@[simp] theorem Node.start_span (n : Node) : n.span.start = n.offset := rfl

@[simp] theorem Node.length_span (n : Node) : n.span.length = n.duration := Span.length_ofLength _ _

/-- The time that a tree occupies. -/
def Tree.span (t : Tree) : Span := t.label.span

/-! ### Several spans -/

/-- How long some spans last together. -/
def totalLength (spans : List Span) : Duration := Duration.sum (spans.map Span.length)

@[simp] theorem totalLength_nil : totalLength [] = .zero := rfl

@[simp] theorem totalLength_cons (s : Span) (spans : List Span) :
    totalLength (s :: spans) = s.length + totalLength spans := by
  rw [totalLength, List.map_cons, Duration.sum_cons]
  rfl

theorem totalLength_append (xs ys : List Span) :
    totalLength (xs ++ ys) = totalLength xs + totalLength ys := by
  rw [totalLength, List.map_append, Duration.sum_append]
  rfl

theorem totalLength_concat (spans : List Span) (s : Span) :
    totalLength (spans ++ [s]) = totalLength spans + s.length := by
  rw [totalLength_append, totalLength_cons, totalLength_nil, Duration.add_zero]

theorem totalLength_map_span (f : List Tree) :
    totalLength (f.map Tree.span) = Duration.sum (f.map fun t => t.label.duration) := by
  rw [totalLength, List.map_map]
  exact congrArg _ (List.map_congr_left fun t _ => Node.length_span t.label)

/-- Spans that all lie between two points of time. -/
def Within (start : Duration) (spans : List Span) (stop : Duration) : Prop :=
  ∀ s ∈ spans, start ≤ s.start ∧ s.stop ≤ stop

theorem within_nil {a b : Duration} : Within a [] b := fun _ hs => absurd hs (by simp)

theorem Within.mono {a b c : Duration} {spans : List Span} (h : Within a spans b) (hbc : b ≤ c) :
    Within a spans c := fun s hs => ⟨(h s hs).1, Duration.le_trans (h s hs).2 hbc⟩

theorem Within.concat {a b : Duration} {spans : List Span} (h : Within a spans b) {s : Span}
    (h₁ : a ≤ s.start) (h₂ : s.stop ≤ b) : Within a (spans ++ [s]) b := by
  intro x hx
  rcases List.mem_append.mp hx with hx | hx
  · exact h x hx
  · rw [List.mem_singleton.mp hx]
    exact ⟨h₁, h₂⟩

/-! ### Tilings -/

/-- Spans that lie back to back from one point of time to another. -/
def Tiles (start : Duration) : List Span → Duration → Prop
  | [], stop => start = stop
  | s :: rest, stop => s.start = start ∧ Tiles s.stop rest stop

@[simp] theorem tiles_nil {a b : Duration} : Tiles a [] b ↔ a = b := Iff.rfl

@[simp] theorem tiles_cons {a b : Duration} {s : Span} {rest : List Span} :
    Tiles a (s :: rest) b ↔ s.start = a ∧ Tiles s.stop rest b := Iff.rfl

instance decidableTiles : ∀ (a : Duration) (spans : List Span) (b : Duration),
    Decidable (Tiles a spans b)
  | a, [], b => inferInstanceAs (Decidable (a = b))
  | a, s :: rest, b =>
    have := decidableTiles s.stop rest b
    inferInstanceAs (Decidable (s.start = a ∧ Tiles s.stop rest b))

/-- Tilings that meet make one tiling, and a tiling can be cut anywhere. -/
theorem tiles_append {a c : Duration} {xs ys : List Span} :
    Tiles a (xs ++ ys) c ↔ ∃ b, Tiles a xs b ∧ Tiles b ys c := by
  induction xs generalizing a with
  | nil => simp
  | cons s rest ih => simp only [List.cons_append, tiles_cons, ih, and_assoc, exists_and_left]

namespace Tiles

variable {a b c : Duration} {spans xs ys : List Span}

theorem append (h : Tiles a xs b) (h' : Tiles b ys c) : Tiles a (xs ++ ys) c :=
  tiles_append.mpr ⟨b, h, h'⟩

theorem concat (h : Tiles a xs b) {s : Span} (hs : s.start = b) : Tiles a (xs ++ [s]) s.stop :=
  h.append ⟨hs, rfl⟩

/-- A tiling ends at one point only. -/
theorem stop_unique (h : Tiles a spans b) (h' : Tiles a spans c) : b = c := by
  induction spans generalizing a with
  | nil => exact h.symm.trans h'
  | cons s rest ih => exact ih h.2 h'.2

/-- What is left of a tiling behind a part of it. -/
theorem of_append (h : Tiles a (xs ++ ys) c) (hx : Tiles a xs b) : Tiles b ys c := by
  obtain ⟨b', hx', hy⟩ := tiles_append.mp h
  exact hx'.stop_unique hx ▸ hy

/-- The lengths of a tiling sum up to the time between its ends. -/
theorem add_totalLength (h : Tiles a spans b) : a + totalLength spans = b := by
  induction spans generalizing a with
  | nil => exact (Duration.add_zero a).trans h
  | cons s rest ih =>
    obtain ⟨rfl, hr⟩ := h
    rw [totalLength_cons, ← Duration.add_assoc, s.start_add_length]
    exact ih hr

theorem start_le_stop (h : Tiles a spans b) : a ≤ b :=
  h.add_totalLength ▸ Duration.le_add_right a _

/-- Every span of a tiling lies between its ends. -/
theorem within (h : Tiles a spans b) : Within a spans b := by
  induction spans generalizing a with
  | nil => exact within_nil
  | cons first rest ih =>
    obtain ⟨rfl, hr⟩ := h
    intro s hs
    rcases List.mem_cons.mp hs with rfl | hs
    · exact ⟨Duration.le_refl _, hr.start_le_stop⟩
    · obtain ⟨h₁, h₂⟩ := ih hr s hs
      exact ⟨Duration.le_trans first.start_le_stop h₁, h₂⟩

/-- Some span of a tiling stops at its end. -/
theorem exists_stop (h : Tiles a spans b) (hn : spans ≠ []) : ∃ s ∈ spans, s.stop = b := by
  obtain ⟨xs, s, rfl⟩ := (List.eq_nil_or_concat spans).resolve_left hn
  rw [List.concat_eq_append] at h ⊢
  obtain ⟨c, -, hs⟩ := tiles_append.mp h
  exact ⟨s, by simp, hs.2⟩

/-- The first span of a tiling starts where the tiling does, and the next one where the one before
stops. -/
theorem start_of_getElem? (h : Tiles a spans b) : (∀ s ∈ spans.head?, s.start = a) ∧
    ∀ k x y, spans[k]? = some x → spans[k + 1]? = some y → y.start = x.stop := by
  induction spans generalizing a with
  | nil => simp
  | cons s rest ih =>
    obtain ⟨hs, hr⟩ := h
    obtain ⟨hhead, hnext⟩ := ih hr
    refine ⟨by simpa using hs, fun k x y hx hy => ?_⟩
    cases k with
    | zero =>
      rw [List.getElem?_cons_succ, ← List.head?_eq_getElem?] at hy
      rw [← Option.some.inj hx]
      exact hhead y hy
    | succ k => exact hnext k x y hx hy

end Tiles

end RhythmTree
