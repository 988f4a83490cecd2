import RhythmTree.Proofs.Conservation
import RhythmTree.Proofs.Containment
import RhythmTree.Proofs.Sounding

/-!
# Summaries

The figures in the summary of a parsed score are those that a reader of the full record finds by
walking through it. The record of a node without children is that of a leaf, and only leaves have
components, so that the components of the leaves are all components. No node ends later than its
root, and no measure later than the last one, so that the score ends with its last measure or with
the span of its trees.

* `Document.records`: all records in some data, at any depth.
* `Tree.countP_isLeafRecord`, `Tree.countP_isComponentRecord`: **what is counted in the record of a
  tree.**
* `Tree.Unscaled.stop_le`: no node ends later than its root.
* `Score.totalDuration_eq`: when a score ends.
* `summary_agrees`: **the summary of a parsed score agrees with its record.**
-/

namespace RhythmTree

/-! ### Records inside data -/

namespace Document

mutual

/-- All records in some data, each one before those inside it. -/
def records : Document → List Fields
  | .record fields => fields :: recordsInFields fields
  | .list items => recordsInItems items
  | .pair first second => records first ++ records second
  | .set members => recordsInItems members
  | _ => []

/-- All records in the items of a list. -/
def recordsInItems : List Document → List Fields
  | [] => []
  | item :: rest => records item ++ recordsInItems rest

/-- All records in the values of some fields. -/
def recordsInFields : List (Name × Document) → List Fields
  | [] => []
  | (_, value) :: rest => records value ++ recordsInFields rest

end

theorem recordsInItems_eq_flatMap (items : List Document) :
    recordsInItems items = items.flatMap records := by
  induction items with
  | nil => rfl
  | cons item rest ih => rw [recordsInItems, ih, List.flatMap_cons]

theorem recordsInFields_append (fs gs : Fields) :
    recordsInFields (fs ++ gs) = recordsInFields fs ++ recordsInFields gs := by
  induction fs with
  | nil => rfl
  | cons f rest ih =>
    obtain ⟨name, value⟩ := f
    rw [List.cons_append, recordsInFields, recordsInFields, ih, List.append_assoc]

theorem records_list_map {α : Type} (write : α → Document) (xs : List α) :
    records (.list (xs.map write)) = xs.flatMap fun x => records (write x) := by
  rw [records, recordsInItems_eq_flatMap, List.flatMap_map]

theorem records_list_map_eq_nil {α : Type} {write : α → Document}
    (h : ∀ x, (write x).records = []) (xs : List α) : records (.list (xs.map write)) = [] := by
  rw [records_list_map]
  exact List.flatMap_eq_nil_iff.mpr fun x _ => h x

/-- Records without records inside them. -/
theorem records_list_map_eq_map {α : Type} {write : α → Document} {fields : α → Fields}
    (h : ∀ x, (write x).records = [fields x]) (xs : List α) :
    records (.list (xs.map write)) = xs.map fields := by
  rw [records_list_map, List.flatMap_congr fun x _ => h x]
  exact List.map_eq_flatMap.symm

/-- The record of a node that has no children. -/
def isLeafRecord (fields : Fields) : Bool :=
  (valueOf? "beats" fields).isSome && (valueOf? "children" fields).isNone

/-- The record of a component. -/
def isComponentRecord (fields : Fields) : Bool := (valueOf? "kind" fields).isSome

/-- The record of an issue of some severity. -/
def hasSeverity (word : Text) (fields : Fields) : Bool :=
  match valueOf? "severity" fields with
  | some (.text t) => t = word
  | _ => false

end Document

open BuilderState

open Document (records recordsInFields isLeafRecord isComponentRecord hasSeverity)

/-! ### Counting in the record of a tree -/

/-- The fields of the record of a component. -/
def Component.fields (c : Component) : Document.Fields :=
  ("performer_id", .text c.performer) :: ("instrument_id", .text c.instrument) ::
    ("kind", .text c.event.kind) :: c.event.payload

theorem Component.records_toDocument (c : Component) : c.toDocument.records = [c.fields] := by
  have hpayload : recordsInFields c.event.payload = [] := by
    cases c.event with
    | pitch values =>
      show records (.list (values.map .float)) ++ [] = []
      rw [Document.records_list_map_eq_nil fun _ => rfl, List.append_nil]
    | articulation markings =>
      show records (.list (markings.map .text)) ++ [] = []
      rw [Document.records_list_map_eq_nil fun _ => rfl, List.append_nil]
    | _ => rfl
  show c.fields :: recordsInFields c.event.payload = [c.fields]
  rw [hpayload]

theorem Rose.leavesAll_eq_flatMap {α : Type} (ts : List (Rose α)) :
    leavesAll ts = ts.flatMap leaves := by
  induction ts with
  | nil => rfl
  | cons t rest ih => rw [leavesAll, ih, List.flatMap_cons]

theorem Rose.leaves_node_cons {α : Type} (a : α) (t : Rose α) (ts : List (Rose α)) :
    (node a (t :: ts)).leaves = (t :: ts).flatMap leaves := by
  rw [leaves, ← leavesAll, leavesAll_eq_flatMap]

theorem Component.isLeafRecord_fields (c : Component) : isLeafRecord c.fields = false := by
  obtain ⟨performer, instrument, event⟩ := c
  cases event <;> rfl

theorem Component.isComponentRecord_fields (c : Component) : isComponentRecord c.fields = true :=
  rfl

/-- Counts that agree for every item agree for all items together. -/
theorem countP_flatMap {α β γ : Type} {p : β → Bool} {f : α → List β} {g : α → List γ}
    {xs : List α} (h : ∀ x ∈ xs, (f x).countP p = (g x).length) :
    (xs.flatMap f).countP p = (xs.flatMap g).length := by
  rw [List.countP_flatMap, List.length_flatMap]
  exact congrArg List.sum (List.map_congr_left h)

namespace Tree

variable {t u : Tree} {p : Address}

/-- The components of a tree sit on nodes without children. -/
def LeafDecorated (t : Tree) : Prop :=
  ∀ p u, t.subtreeAt p = some u → u.label.components ≠ [] → u.children = []

theorem LeafDecorated.child {n : Node} {ts : List Tree} (h : LeafDecorated (.node n ts))
    (ht : t ∈ ts) : LeafDecorated t := by
  intro p u hu
  obtain ⟨i, hi⟩ := List.getElem?_of_mem ht
  exact h (i :: p) u (Rose.subtreeAt_cons_eq_some_iff.mpr ⟨t, hi, hu⟩)

theorem toDocuments_eq_map (ts : List Tree) : toDocuments ts = ts.map toDocument := by
  induction ts with
  | nil => rw [toDocuments, List.map_nil]
  | cons t rest ih => rw [toDocuments, ih, List.map_cons]

theorem recordsInFields_nodeFields (n : Node) :
    recordsInFields (nodeFields n) = n.components.map Component.fields := by
  unfold nodeFields
  dsimp only
  split
  · next h =>
    rw [List.isEmpty_iff.mp h]
    rfl
  · rw [Document.recordsInFields_append]
    show records (.list (n.components.map Component.toDocument)) ++ [] = _
    rw [List.append_nil, Document.records_list_map_eq_map Component.records_toDocument]

/-- The record of a node comes first, then those of its components, then those of its children. -/
theorem records_toDocument (n : Node) (ts : List Tree) :
    records (toDocument (.node n ts)) = fields (.node n ts) ::
      (n.components.map Component.fields ++ ts.flatMap fun t => records t.toDocument) := by
  rw [toDocument_eq, records]
  refine congrArg _ ?_
  cases ts with
  | nil => rw [fields, recordsInFields_nodeFields, List.flatMap_nil, List.append_nil]
  | cons t ts =>
    rw [fields, Document.recordsInFields_append, recordsInFields_nodeFields, ← toDocuments,
      toDocuments_eq_map, ← Document.records_list_map]
    exact congrArg _ (List.append_nil _)

theorem isLeafRecord_fields (n : Node) (ts : List Tree) :
    isLeafRecord (fields (.node n ts)) = ts.isEmpty := by
  obtain ⟨hb, -, -⟩ := valueOf?_time n ts
  have hc : Document.valueOf? "children" (fields (.node n ts)) = _ := valueOf?_children n ts
  rw [isLeafRecord, hb, hc]
  cases ts <;> rfl

theorem isComponentRecord_fields (n : Node) (ts : List Tree) :
    isComponentRecord (fields (.node n ts)) = false := by
  obtain ⟨beats, duration, offset, _ | ⟨c, cs⟩⟩ := n <;> cases ts <;> rfl

/-- **The record of a tree has a record without children for every leaf.** -/
theorem countP_isLeafRecord (t : Tree) :
    (records t.toDocument).countP isLeafRecord = t.leaves.length := by
  induction t using Rose.induction with
  | node n ts ih =>
    have hcomponents : (n.components.map Component.fields).countP isLeafRecord = 0 := by
      rw [List.countP_map]
      refine List.countP_eq_zero.mpr fun c _ => ?_
      rw [Function.comp_apply, c.isLeafRecord_fields]
      exact Bool.false_ne_true
    rw [records_toDocument, List.countP_cons, isLeafRecord_fields, List.countP_append,
      hcomponents, Nat.zero_add, countP_flatMap ih]
    cases ts with
    | nil => rfl
    | cons t ts => rw [Rose.leaves_node_cons, List.isEmpty_cons, if_neg Bool.false_ne_true,
        Nat.add_zero]

/-- **The record of a tree has a record for every component on a leaf**, if there are no components
on other nodes. -/
theorem countP_isComponentRecord (h : t.LeafDecorated) :
    (records t.toDocument).countP isComponentRecord =
      (t.leaves.flatMap Node.components).length := by
  induction t using Rose.induction with
  | node n ts ih =>
    have hcomponents : (n.components.map Component.fields).countP isComponentRecord =
        n.components.length := by
      rw [List.countP_map]
      exact List.countP_eq_length.mpr fun c _ => c.isComponentRecord_fields
    rw [records_toDocument, List.countP_cons, isComponentRecord_fields, List.countP_append,
      hcomponents, countP_flatMap fun t ht => ih t ht (h.child ht), if_neg Bool.false_ne_true,
      Nat.add_zero]
    cases ts with
    | nil => rw [Rose.leaves, List.flatMap_singleton, List.flatMap_nil, List.length_nil,
        Nat.add_zero]
    | cons t ts =>
      have hn : n.components = [] := by
        by_contra hn
        exact List.cons_ne_nil t ts (h [] _ rfl hn)
      rw [hn, Rose.leaves_node_cons, List.flatMap_assoc, List.length_nil, Nat.zero_add]

/-! ### Ends -/

/-- No node of a tree ends later than the root. -/
theorem Unscaled.stop_le (h : t.Unscaled) (hu : (normalize t).subtreeAt p = some u) :
    u.label.stop ≤ (normalize t).label.stop := by
  induction p using List.reverseRecOn generalizing u with
  | nil =>
    obtain rfl := Option.some.inj hu
    exact Duration.le_refl _
  | append_singleton p i ih =>
    -- a child ends within its parent
    obtain ⟨v, hv, hi⟩ := Rose.exists_subtreeAt_of_append hu
    obtain ⟨c, hc, hcu⟩ := Rose.subtreeAt_cons_eq_some_iff.mp hi
    obtain rfl := Option.some.inj hcu
    obtain ⟨stop, hstop, htiles⟩ := h.tiles_children hv
    have hw := htiles.within (Tree.span c) (List.mem_map_of_mem (List.mem_of_getElem? hc))
    exact Duration.le_trans hw.2 (Duration.le_trans hstop (ih hv))

end Tree

theorem Span.stop_foldl_join (s : Span) (spans : List Span) :
    (spans.foldl join s).stop = (spans.map stop).foldl max s.stop := by
  induction spans generalizing s with
  | nil => rfl
  | cons first rest ih => exact ih (s.join first)

/-- The span that covers some spans stops with the latest of them. -/
theorem Span.stop_cover (spans : List Span) :
    (cover spans).stop = (spans.map stop).foldl max .zero := by
  cases spans with
  | nil => rfl
  | cons first rest =>
    have hz : max .zero first.stop = first.stop := if_pos (Duration.zero_le _)
    rw [cover, stop_foldl_join, List.map_cons, List.foldl_cons, hz]

/-! ### Scores -/

theorem Issue.records_toDocument (i : Issue) : i.toDocument.records = [i.fields] := by
  rw [toDocument_eq]
  unfold fields
  cases i.location? <;> rfl

theorem Report.isClean_iff (r : Report) :
    r.isClean = true ↔ r.errors.length = 0 ∧ r.warnings.length = 0 := by
  have hs : ∀ i : Issue, i.severity = .info ↔ i.severity ≠ .error ∧ i.severity ≠ .warning := by
    intro i
    cases i.severity <;> decide
  simp only [isClean, errors, warnings, ofSeverity,
    List.length_eq_zero_iff, List.filter_eq_nil_iff, List.all_eq_true, decide_eq_true_eq, hs]
  exact ⟨fun h => ⟨fun i hi => (h i hi).1, fun i hi => (h i hi).2⟩,
    fun h i hi => ⟨h.1 i hi, h.2 i hi⟩⟩

namespace Score

variable {s : Score} {stop : Duration}

/-- All records in a field of the record of a score. -/
def recordsIn (s : Score) (name : Text) : List Document.Fields :=
  (s.toDocument.field? name).elim [] records

/-- The end of the last measure, or the start of the piece if there is none. -/
def lastBar (s : Score) : Duration := s.measures.getLast?.elim .zero Measure.stop

/-- No measure ends later than the last one. -/
theorem stop_le_lastBar (h : Tiles .zero (s.measures.map Measure.span) stop) {m : Measure}
    (hm : m ∈ s.measures) : m.stop ≤ s.lastBar := by
  obtain ⟨last, hl⟩ := Option.isSome_iff_exists.mp
    (List.getLast?_isSome.mpr (List.ne_nil_of_mem hm))
  rw [lastBar, hl, Option.elim_some, stop_of_getLast? h hl]
  exact (h.within m.span (List.mem_map_of_mem hm)).2

/-- A score ends with its last measure or with the span of its trees. -/
theorem totalDuration_eq (h : Tiles .zero (s.measures.map Measure.span) stop) :
    s.totalDuration = max s.lastBar s.span.stop := by
  have hspan : s.span.stop = (s.forest.map fun t => t.label.stop).foldl max .zero := by
    rw [span, Span.stop_cover, List.map_map]
    rfl
  apply Duration.le_antisymm
  · refine Duration.foldl_max_le (Duration.zero_le _) ?_
    intro d hd
    rcases List.mem_append.mp hd with hd | hd
    · obtain ⟨m, hm, rfl⟩ := List.mem_map.mp hd
      exact Duration.le_trans (stop_le_lastBar h hm) (Duration.le_max_left _ _)
    · refine Duration.le_trans ?_ (Duration.le_max_right _ _)
      rw [hspan]
      exact Duration.mem_le_foldl_max hd _
  · refine Duration.max_le ?_ ?_
    · cases hl : s.measures.getLast? with
      | none =>
        rw [lastBar, hl]
        exact Duration.zero_le _
      | some last =>
        rw [lastBar, hl]
        have hm : last.stop ∈ s.measures.map Measure.stop :=
          List.mem_map_of_mem (List.mem_of_getLast? hl)
        exact Duration.mem_le_foldl_max (List.mem_append_left _ hm) _
    · rw [hspan]
      refine Duration.foldl_max_le (Duration.zero_le _) ?_
      intro d hd
      exact Duration.mem_le_foldl_max (List.mem_append_right _ hd) _

theorem recordsIn_forest (s : Score) :
    s.recordsIn "duration_nodes" = s.forest.flatMap fun t => records t.toDocument := by
  rw [← Document.records_list_map, ← Tree.toDocuments_eq_map]
  rfl

theorem recordsIn_report (s : Score) :
    s.recordsIn "diagnostics" = s.report.issues.map Issue.fields :=
  Document.records_list_map_eq_map Issue.records_toDocument s.report.issues

/-- The issues of a severity are those whose records have its word. -/
theorem countP_hasSeverity (s : Score) (severity : Severity) :
    (s.recordsIn "diagnostics").countP (hasSeverity severity.text) =
      (s.report.ofSeverity severity).length := by
  have hi : ∀ i : Issue, hasSeverity severity.text i.fields = decide (i.severity = severity) := by
    intro i
    show decide (Text.ofString i.severity.text = Text.ofString severity.text) = _
    rw [decide_eq_decide]
    exact ⟨fun h => Severity.text_injective (Text.ofString_injective h), fun h => h ▸ rfl⟩
  rw [recordsIn_report, List.countP_map, Report.ofSeverity, ← List.countP_eq_length_filter]
  exact List.countP_congr fun i _ => by rw [Function.comp_apply, hi]

/-- The figures in the summary of a score are those of its record. -/
structure SummaryAgrees (s : Score) : Prop where
  leaves : s.summary.field? "leaves" =
    some (.count ((s.recordsIn "duration_nodes").countP isLeafRecord))
  components : s.summary.field? "components" =
    some (.count ((s.recordsIn "duration_nodes").countP isComponentRecord))
  duration : s.summary.field? "total_duration" = some (.text s.totalDuration.text)
  /-- The score ends with its last measure or with the span of its trees. -/
  latest : s.totalDuration = max s.lastBar s.span.stop
  /-- No node of any tree ends later. -/
  stop_le : ∀ p n, s.forest.nodeAt? p = some n → n.stop ≤ s.totalDuration
  issues : s.summary.field? "issues" = some (.record [
    ("errors", .count ((s.recordsIn "diagnostics").countP (hasSeverity "error"))),
    ("warnings", .count ((s.recordsIn "diagnostics").countP (hasSeverity "warning")))])
  clean : s.report.isClean = true ↔
    (s.recordsIn "diagnostics").countP (hasSeverity "error") = 0 ∧
      (s.recordsIn "diagnostics").countP (hasSeverity "warning") = 0

end Score

section

variable {strict : Bool} {ts : List Token} {score : Score}

theorem leafDecorated_of_build (hb : build strict ts = .ok score) :
    ∀ t ∈ score.forest, t.LeafDecorated := by
  obtain ⟨-, rfl⟩ := build_lenient_eq_ok.mp (build_lenient_of_build hb)
  intro t ht p u hu hc
  obtain ⟨i, hi⟩ := List.getElem?_of_mem ht
  have hp : Forest.subtreeAt ((reached ts).forest.map Tree.normalize) ⟨i, p⟩ = some u := by
    rw [← forest_toScore, Forest.subtreeAt, hi]
    exact hu
  -- normalization keeps the components and the children
  obtain ⟨v, hv, he⟩ := exists_subtreeAt_of_normalize hp
  have hl := congrArg Rose.label he
  have hn := congrArg Rose.children he
  rw [Rose.label_map, Rose.label_map] at hl
  rw [Rose.children_map, Rose.children_map] at hn
  obtain ⟨hz, -⟩ := childless_of_decorated hv (hl ▸ hc)
  rw [hz, List.map_nil] at hn
  exact List.map_eq_nil_iff.mp hn.symm

theorem stop_le_totalDuration (hb : build strict ts = .ok score) {p : Place} {n : Node}
    (hn : score.forest.nodeAt? p = some n) : n.stop ≤ score.totalDuration := by
  obtain ⟨u, hu, rfl⟩ := Option.map_eq_some_iff.mp hn
  obtain ⟨t, ht, hu⟩ := Option.bind_eq_some_iff.mp hu
  have htm := List.mem_of_getElem? ht
  obtain ⟨r, hr, rfl⟩ := exists_grown_of_build hb htm
  have hroot : (Tree.normalize r).label.stop ≤ score.totalDuration :=
    Duration.mem_le_foldl_max (List.mem_append_right _ (List.mem_map_of_mem htm)) _
  exact Duration.le_trans (hr.unscaled.stop_le hu) hroot

end

/-- **The summary of a parsed score agrees with its record.** -/
theorem summary_agrees {strict : Bool} {raw : Document} {score : Score}
    (h : parse strict raw = .ok score) : score.SummaryAgrees := by
  obtain ⟨ts, hb⟩ := exists_build_of_parse h
  have herrors : (score.recordsIn "diagnostics").countP (hasSeverity "error") =
      score.report.errors.length := score.countP_hasSeverity .error
  have hwarnings : (score.recordsIn "diagnostics").countP (hasSeverity "warning") =
      score.report.warnings.length := score.countP_hasSeverity .warning
  constructor
  case leaves =>
    rw [score.recordsIn_forest, countP_flatMap fun t _ => t.countP_isLeafRecord,
      ← Rose.leavesAll_eq_flatMap]
    rfl
  case components =>
    have hd := leafDecorated_of_build hb
    rw [score.recordsIn_forest, countP_flatMap fun t ht => Tree.countP_isComponentRecord (hd t ht),
      ← List.flatMap_assoc, ← Rose.leavesAll_eq_flatMap]
    rfl
  case duration => rfl
  case latest => exact Score.totalDuration_eq (tiles_measures (build_lenient_of_build hb))
  case stop_le => exact fun p n hn => stop_le_totalDuration hb hn
  case issues =>
    rw [herrors, hwarnings]
    rfl
  case clean =>
    rw [herrors, hwarnings]
    exact score.report.isClean_iff

open Token in
/-- A tree with an inner node and three leaves between two bars, two rests on leaves, and one rest
before any leaf. -/
def tallyStream : List Token :=
  [.text Keyword.rest.spelling "", bar, .text Keyword.performerId.spelling "strings",
    .text Keyword.instrumentId.spelling "viola", root (.ofNat 4), inner 3 (.below 0),
    leaf 2 (.below 1), .text Keyword.rest.spelling "", leaf 1 (.below 1), leaf 1 (.below 0),
    .text Keyword.rest.spelling "", bar]

theorem summary_agrees_tallyStream :
    ∃ score, parse false (.list (Token.toDocuments tallyStream)) = .ok score ∧
      score.SummaryAgrees ∧ (score.recordsIn "duration_nodes").countP isLeafRecord = 3 ∧
      (score.recordsIn "duration_nodes").countP isComponentRecord = 2 ∧
      (score.recordsIn "diagnostics").countP (hasSeverity "warning") = 1 ∧
      score.lastBar = .ofNat 4 ∧ score.totalDuration = .ofNat 4 := by
  have hp : parse false (.list (Token.toDocuments tallyStream)) =
      .ok (reached tallyStream).toScore := rfl
  exact ⟨_, hp, summary_agrees hp, by decide +kernel, by decide +kernel, by decide +kernel,
    by decide +kernel, by decide +kernel⟩

end RhythmTree
