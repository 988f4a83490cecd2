import RhythmTree.Proofs.Durations

/-!
# What spans share

How two spans touch is told from their ends. It says which points of time they share: a span
contains its two ends, but its extent is without the last point, unless the span is a single point.

* `exists_contains_iff`, `exists_extent_iff`: two spans share a point if and only if they share the
  start of the later one.
* `relationship_by_points`: **spans with no common point have no relationship, spans whose extents
  meet overlap, and all others are adjacent and share one boundary.**
-/

namespace RhythmTree.Span

variable {a b : Span} {t : Duration}

/-- The points of time before the end of a span, or the one point of a span that has no length. -/
def Extent (s : Span) (t : Duration) : Prop :=
  if s.start < s.stop then s.start ≤ t ∧ t < s.stop else t = s.start

theorem contains_iff {s : Span} : s.contains t ↔ s.start ≤ t ∧ t ≤ s.stop := by
  simp [contains]

theorem contains_start (s : Span) : s.contains s.start :=
  contains_iff.mpr ⟨Duration.le_refl _, s.start_le_stop⟩

theorem extent_start (s : Span) : s.Extent s.start := by
  unfold Extent
  split
  · next h => exact ⟨Duration.le_refl _, h⟩
  · rfl

theorem Extent.start_le {s : Span} (h : s.Extent t) : s.start ≤ t := by
  unfold Extent at h
  split at h
  · exact h.1
  · rw [h]
    exact Duration.le_refl _

/-- Behind its start the extent of a span goes on to its end. -/
theorem extent_iff_of_lt {s : Span} (h : s.start < t) : s.Extent t ↔ t < s.stop := by
  unfold Extent
  split
  · exact and_iff_right (Duration.le_of_lt h)
  · next hs =>
    constructor
    · intro ht
      rw [ht] at h
      exact absurd h (Duration.lt_irrefl _)
    · intro ht
      exact absurd (Duration.lt_trans h ht) hs

/-! ### Common points -/

/-- Two spans share a point if and only if the first one contains the start of the second. -/
theorem exists_contains_iff (h : a.start ≤ b.start) :
    (∃ t, a.contains t ∧ b.contains t) ↔ b.start ≤ a.stop := by
  constructor
  · rintro ⟨t, ha, hb⟩
    rw [contains_iff] at ha hb
    exact Duration.le_trans hb.1 ha.2
  · intro hs
    exact ⟨b.start, contains_iff.mpr ⟨h, hs⟩, b.contains_start⟩

/-- The extents of two spans meet if and only if the start of the second is before the end of the
first. -/
theorem exists_extent_iff (h : a.start < b.start) :
    (∃ t, a.Extent t ∧ b.Extent t) ↔ b.start < a.stop := by
  constructor
  · rintro ⟨t, ha, hb⟩
    have hat : a.start < t := Duration.lt_of_lt_of_le h hb.start_le
    exact Duration.lt_of_le_of_lt hb.start_le ((extent_iff_of_lt hat).mp ha)
  · intro hs
    exact ⟨b.start, (extent_iff_of_lt h).mpr hs, b.extent_start⟩

/-- A span that ends where another one starts shares this one point with it. -/
theorem contains_both_iff (h : a.stop = b.start) : a.contains t ∧ b.contains t ↔ t = a.stop := by
  rw [contains_iff, contains_iff]
  constructor
  · rintro ⟨⟨-, ha⟩, hb, -⟩
    exact Duration.le_antisymm ha (h ▸ hb)
  · intro ht
    subst ht
    exact ⟨⟨a.start_le_stop, Duration.le_refl _⟩, h ▸ Duration.le_refl _, h ▸ b.start_le_stop⟩

/-! ### Relationships -/

theorem relateOrdered_eq_none_iff : relateOrdered a b = .none ↔ a.stop < b.start := by
  unfold relateOrdered
  split
  · simp [*]
  · split <;> simp [*]

theorem relateOrdered_eq_overlapping_iff :
    relateOrdered a b = .overlapping ↔ b.start < a.stop := by
  unfold relateOrdered
  split
  · next h => simp [Duration.not_lt.mpr (Duration.le_of_lt h)]
  · split <;> simp [*]

theorem relateOrdered_eq_adjacent_iff : relateOrdered a b = .adjacent ↔ a.stop = b.start := by
  unfold relateOrdered
  split
  · next h => simp [Duration.ne_of_lt h]
  · next h₁ =>
    split
    · next h₂ => simp [(Duration.ne_of_lt h₂).symm]
    · next h₂ => simp [Duration.le_antisymm (Duration.not_lt.mp h₂) (Duration.not_lt.mp h₁)]

theorem relationship_of_lt (h : a.start < b.start) : a.relationship b = relateOrdered a b :=
  if_pos h

theorem relationship_of_start_eq (h : a.start = b.start) : a.relationship b = .overlapping := by
  rw [relationship, h, if_neg (Duration.lt_irrefl _), if_neg (Duration.lt_irrefl _)]

/-- A symmetric fact about two spans holds if it holds where the first one starts first and where
both start together. -/
theorem wlog_start {motive : Span → Span → Prop} (symm : ∀ a b, motive a b → motive b a)
    (lt : ∀ a b, a.start < b.start → motive a b) (eq : ∀ a b, a.start = b.start → motive a b)
    (a b : Span) : motive a b := by
  by_cases hab : a.start < b.start
  · exact lt a b hab
  · by_cases hba : b.start < a.start
    · exact symm b a (lt b a hba)
    · exact eq a b (Duration.le_antisymm (Duration.not_lt.mp hba) (Duration.not_lt.mp hab))

theorem relationship_comm (a b : Span) : b.relationship a = a.relationship b := by
  induction a, b using wlog_start with
  | symm a b h => exact h.symm
  | lt a b h =>
    have hn : ¬ b.start < a.start := Duration.not_lt.mpr (Duration.le_of_lt h)
    rw [relationship, if_neg hn, if_pos h, relationship_of_lt h]
  | eq a b h => rw [relationship_of_start_eq h, relationship_of_start_eq h.symm]

theorem relationship_eq_none_iff (a b : Span) :
    a.relationship b = .none ↔ ¬ ∃ t, a.contains t ∧ b.contains t := by
  induction a, b using wlog_start with
  | symm a b h => rw [relationship_comm, h, exists_congr fun t => and_comm]
  | lt a b h =>
    rw [relationship_of_lt h, relateOrdered_eq_none_iff, exists_contains_iff (Duration.le_of_lt h),
      Duration.not_le]
  | eq a b h =>
    have hc : ∃ t, a.contains t ∧ b.contains t := ⟨a.start, a.contains_start, h ▸ b.contains_start⟩
    simp [relationship_of_start_eq h, hc]

theorem relationship_eq_overlapping_iff (a b : Span) :
    a.relationship b = .overlapping ↔ ∃ t, a.Extent t ∧ b.Extent t := by
  induction a, b using wlog_start with
  | symm a b h => rw [relationship_comm, h, exists_congr fun t => and_comm]
  | lt a b h => rw [relationship_of_lt h, relateOrdered_eq_overlapping_iff, exists_extent_iff h]
  | eq a b h =>
    rw [relationship_of_start_eq h]
    exact iff_of_true rfl ⟨a.start, a.extent_start, h ▸ b.extent_start⟩

/-- What it takes for a span to end at the start of a later one: they share this point alone. -/
structure EndsAt (a b : Span) : Prop where
  start_lt : a.start < b.start
  stop_eq : a.stop = b.start
  contains_iff : ∀ t, a.contains t ∧ b.contains t ↔ t = a.stop

theorem endsAt_iff : a.EndsAt b ↔ a.start < b.start ∧ a.stop = b.start :=
  ⟨fun h => ⟨h.start_lt, h.stop_eq⟩, fun h => ⟨h.1, h.2, fun _ => contains_both_iff h.2⟩⟩

theorem relationship_eq_adjacent_iff (a b : Span) :
    a.relationship b = .adjacent ↔ a.EndsAt b ∨ b.EndsAt a := by
  induction a, b using wlog_start with
  | symm a b h => rw [relationship_comm, h, or_comm]
  | lt a b h =>
    have hn : ¬ b.start < a.start := Duration.not_lt.mpr (Duration.le_of_lt h)
    rw [relationship_of_lt h, relateOrdered_eq_adjacent_iff, endsAt_iff, endsAt_iff]
    simp [h, hn]
  | eq a b h =>
    rw [relationship_of_start_eq h, endsAt_iff, endsAt_iff, h]
    simp [Duration.lt_irrefl]

/-- **Spans with no common point have no relationship, spans whose extents meet overlap, and all
others are adjacent.** Two adjacent spans do not start together, and they share one point, at which
the one that starts first ends and the other one starts. The order of the spans does not count. -/
theorem relationship_by_points (a b : Span) :
    b.relationship a = a.relationship b ∧
      (a.relationship b = .none ↔ ¬ ∃ t, a.contains t ∧ b.contains t) ∧
      (a.relationship b = .overlapping ↔ ∃ t, a.Extent t ∧ b.Extent t) ∧
      (a.relationship b = .adjacent ↔
        (∃ t, a.contains t ∧ b.contains t) ∧ ¬ ∃ t, a.Extent t ∧ b.Extent t) ∧
      (a.relationship b = .adjacent ↔ a.EndsAt b ∨ b.EndsAt a) := by
  have hn := relationship_eq_none_iff a b
  have ho := relationship_eq_overlapping_iff a b
  refine ⟨relationship_comm a b, hn, ho, ?_, relationship_eq_adjacent_iff a b⟩
  have hthird : a.relationship b = .adjacent ↔
      ¬ a.relationship b = .none ∧ ¬ a.relationship b = .overlapping := by
    cases a.relationship b <;> simp
  rw [hthird, hn, ho, Classical.not_not]

end RhythmTree.Span
