import Mathlib.Data.List.Forall2
import RhythmTree.Proofs.ReadBack

/-!
# Scores as records

The record of a score holds everything that the score holds. Records are compared as JSON data: the
order of their fields does not count, and nothing is said about how floating point values are
compared. A list that the record leaves out is empty, a duration is known from its text, the ten
kinds of events have words of their own, and no location in the report of a parse is empty.

* `Document.Alike`: two pieces of JSON data with the same contents.
* `Tree.alike_of_toDocument`: **a tree is known from its record, node by node.**
* `Score.alike_of_toDocument`, `alike_of_parse`: **a parsed score is known from its record.**
* `Score.Alike.forest_eq`: the trees are equal when floating point values are compared exactly.
* `Score.alike_toDocument_of_perm`: the order in which keys were stored does not show.
-/

namespace RhythmTree

open Decimal (Binary64)

variable {same : Binary64 → Binary64 → Prop}

/-! ### Data with the same contents -/

namespace Document

/-- Two pieces of JSON data with the same contents, whatever it is for floating point values to be
the same. Of a record the order of the fields does not count. -/
inductive Alike (same : Binary64 → Binary64 → Prop) : Document → Document → Prop
  | null : Alike same .null .null
  | bool (b : Bool) : Alike same (.bool b) (.bool b)
  | int (n : Int) : Alike same (.int n) (.int n)
  | float {x y : Binary64} (h : same x y) : Alike same (.float x) (.float y)
  | text (t : Text) : Alike same (.text t) (.text t)
  | list {xs ys : List Document} (h : List.Forall₂ (Alike same) xs ys) :
    Alike same (.list xs) (.list ys)
  | record {fs gs : Fields}
    (h : ∀ name : Name, Option.Rel (Alike same) (fs.lookup name) (gs.lookup name)) :
    Alike same (.record fs) (.record gs)

namespace Alike

theorem text_eq {s t : Text} (h : Alike same (.text s) (.text t)) : s = t := by
  cases h
  rfl

theorem string_eq {s t : String} (h : Alike same (.text s) (.text t)) : s = t :=
  Text.ofString_injective h.text_eq

theorem duration_eq {d e : Duration} (h : Alike same (.text d.text) (.text e.text)) : d = e :=
  Duration.text_injective h.string_eq

theorem int_eq {m n : Int} (h : Alike same (.int m) (.int n)) : m = n := by
  cases h
  rfl

theorem float_same {x y : Binary64} (h : Alike same (.float x) (.float y)) : same x y := by
  cases h with
  | float h => exact h

theorem items {xs ys : List Document} (h : Alike same (.list xs) (.list ys)) :
    List.Forall₂ (Alike same) xs ys := by
  cases h with
  | list h => exact h

/-- Records are compared field by field if their fields stand in the same order. -/
theorem of_fields {fs gs : Fields}
    (h : List.Forall₂ (fun f g => f.1 = g.1 ∧ Alike same f.2 g.2) fs gs) :
    Alike same (.record fs) (.record gs) := by
  refine .record fun name => ?_
  induction h with
  | nil => exact .none
  | @cons f g fs gs hfg _ ih =>
    obtain ⟨k, v⟩ := f
    obtain ⟨k', w⟩ := g
    obtain ⟨rfl, hvw⟩ := hfg
    rw [lookup_cons_eq_ite, lookup_cons_eq_ite]
    split
    · exact .some hvw
    · exact ih

/-- Data that JSON has a form for has the same contents as itself. -/
theorem refl {d : Document} (h : Json.IsJson d) : Alike (· = ·) d d := by
  induction h with
  | null => exact .null
  | bool b => exact .bool b
  | int n => exact .int n
  | float x => exact .float rfl
  | text t => exact .text t
  | list _ ih => exact .list (List.forall₂_same.mpr ih)
  | record fields _ _ ih =>
    refine .of_fields (List.forall₂_same.mpr fun f hf => ⟨rfl, ?_⟩)
    obtain ⟨field, hfield, rfl⟩ := List.mem_map.mp hf
    exact ih field hfield

theorem lookup {fs gs : Fields} (h : Alike same (.record fs) (.record gs)) (name : Name) :
    Option.Rel (Alike same) (fs.lookup name) (gs.lookup name) := by
  cases h with
  | record h => exact h name

/-- Fields of one name have the same contents. -/
theorem field {fs gs : Fields} (h : Alike same (.record fs) (.record gs)) (name : Text)
    {v w : Document} (hf : valueOf? name fs = some v) (hg : valueOf? name gs = some w) :
    Alike same v w := by
  have hr := h.lookup (.text name)
  rw [valueOf?] at hf hg
  rw [hf, hg] at hr
  cases hr with
  | some hr => exact hr

end Alike

/-- Items that are each known from their contents are known from the contents of the list. -/
theorem eq_of_forall₂_map {α : Type} {write : α → Document}
    (hw : ∀ x y, Alike same (write x) (write y) → x = y) {xs ys : List α}
    (h : List.Forall₂ (Alike same) (xs.map write) (ys.map write)) : xs = ys := by
  rw [List.forall₂_map_left_iff, List.forall₂_map_right_iff] at h
  have he := h.imp hw
  rwa [List.forall₂_eq_eq_eq] at he

/-- A list, unless it is empty. -/
def listed? (items : List Document) : Option Document :=
  if items.isEmpty then none else some (.list items)

/-- A list that is left out when it is empty is known all the same. -/
theorem items_of_listed? {xs ys : List Document}
    (h : Option.Rel (Alike same) (listed? xs) (listed? ys)) : List.Forall₂ (Alike same) xs ys := by
  cases xs with
  | nil =>
    cases ys with
    | nil => exact .nil
    | cons y ys => cases h
  | cons x xs =>
    cases ys with
    | nil => cases h
    | cons y ys =>
      cases h with
      | some h => exact h.items

/-! ### Tables as records -/

/-- A value in a record that has the keys of a table for names. -/
theorem lookup_map_text {β : Type} (write : β → Document) (key : Text)
    (entries : List (Text × β)) :
    (entries.map fun entry => ((.text entry.1 : Name), write entry.2)).lookup (.text key) =
      (entries.lookup key).map write := by
  induction entries with
  | nil => rfl
  | cons entry rest ih =>
    obtain ⟨k, v⟩ := entry
    rw [List.map_cons, lookup_cons_eq_ite, lookup_cons_eq_ite, ih]
    by_cases h : key = k
    · rw [if_pos (congrArg Name.text h), if_pos h, Option.map_some]
    · have hn : Name.text key ≠ Name.text k := fun e => h (Name.text.inj e)
      rw [if_neg hn, if_neg h]

theorem rel_of_map {β : Type} {R : β → β → Prop} {write : β → Document}
    (hw : ∀ v w, Alike same (write v) (write w) → R v w) {v w : Option β}
    (h : Option.Rel (Alike same) (v.map write) (w.map write)) : Option.Rel R v w := by
  cases v with
  | none =>
    cases w with
    | none => exact .none
    | some w => cases h
  | some v =>
    cases w with
    | none => cases h
    | some w =>
      cases h with
      | some h => exact .some (hw v w h)

/-- The order in which the keys of a table were stored does not count. -/
theorem alike_of_perm {β : Type} (write : β → Document) {t u : Table Text β}
    (hp : t.entries.Perm u.entries) (hw : ∀ entry ∈ t.entries, Json.IsJson (write entry.2)) :
    Alike (· = ·) (.record (t.entries.map fun entry => (.text entry.1, write entry.2)))
      (.record (u.entries.map fun entry => (.text entry.1, write entry.2))) := by
  have hinj : Function.Injective Name.text := fun _ _ => Name.text.inj
  have hn := t.nodup.map hinj
  rw [List.map_map] at hn
  refine .record fun name => ?_
  rw [← lookup_eq_of_perm (hp.map _) (by rw [List.map_map]; exact hn) name]
  exact (Alike.refl (isJson_record_table write hw)).lookup name

theorem eq_of_rel {β : Type} {v w : Option β} (h : Option.Rel (· = ·) v w) : v = w := by
  cases h with
  | none => rfl
  | some h => exact congrArg some h

/-- A table is known from its record as far as its values are known from theirs. -/
theorem get?_of_alike {β : Type} {R : β → β → Prop} {write : β → Document}
    (hw : ∀ v w, Alike same (write v) (write w) → R v w) {t u : Table Text β}
    (h : Alike same (.record (t.entries.map fun entry => (.text entry.1, write entry.2)))
      (.record (u.entries.map fun entry => (.text entry.1, write entry.2)))) (key : Text) :
    Option.Rel R (t.get? key) (u.get? key) := by
  have hr := h.lookup (.text key)
  rw [lookup_map_text, lookup_map_text] at hr
  exact rel_of_map hw hr

end Document

open Document (Alike)

/-! ### Components -/

/-- Two events are the same as far as floating point values are. -/
def Event.Alike (same : Binary64 → Binary64 → Prop) : Event → Event → Prop
  | .pitch xs, .pitch ys => List.Forall₂ same xs ys
  | e, e' => e = e'

/-- Two components are the same as far as floating point values are. -/
structure Component.Alike (same : Binary64 → Binary64 → Prop) (c d : Component) : Prop where
  performer : c.performer = d.performer
  instrument : c.instrument = d.instrument
  event : c.event.Alike same d.event

theorem Event.Alike.eq {e e' : Event} (h : e.Alike (· = ·) e') : e = e' := by
  unfold Event.Alike at h
  split at h
  · rw [List.forall₂_eq_eq_eq] at h
    rw [h]
  · exact h

namespace Component

theorem Alike.eq {c d : Component} (h : c.Alike (· = ·) d) : c = d := by
  obtain ⟨hp, hi, he⟩ := h
  obtain ⟨performer, instrument, event⟩ := c
  dsimp only at hp hi he
  rw [hp, hi, he.eq]

/-- **A component is known from its record.** -/
theorem alike_of_toDocument {c d : Component} (h : Document.Alike same c.toDocument d.toDocument) :
    c.Alike same d := by
  obtain ⟨performer, instrument, event⟩ := c
  obtain ⟨performer', instrument', event'⟩ := d
  have hr : Document.Alike same (.record _) (.record _) := h
  refine ⟨(hr.field "performer_id" rfl rfl).text_eq,
    (hr.field "instrument_id" rfl rfl).text_eq, ?_⟩
  have hkind : event.kind = event'.kind :=
    (hr.field "kind" rfl rfl : Document.Alike same (.text event.kind) _).string_eq
  -- Events of different kinds have different words, and most kinds have one event only.
  cases event <;> cases event' <;> simp [Event.kind] at hkind
  any_goals exact rfl
  case pitch.pitch xs ys =>
    have hi := (hr.field "values" rfl rfl : Document.Alike same (.list _) _).items
    rw [List.forall₂_map_left_iff, List.forall₂_map_right_iff] at hi
    exact hi.imp fun _ _ hx => hx.float_same
  case dynamic.dynamic s t =>
    exact congrArg Event.dynamic (hr.field "value" rfl rfl).text_eq
  case articulation.articulation xs ys =>
    have hi := (hr.field "values" rfl rfl : Document.Alike same (.list _) _).items
    exact congrArg Event.articulation (Document.eq_of_forall₂_map (fun _ _ hx => hx.text_eq) hi)

end Component

/-! ### Trees -/

/-- Two trees have the same shape, and their nodes the same weights and times and the same
components as far as floating point values are. -/
inductive Tree.Alike (same : Binary64 → Binary64 → Prop) : Tree → Tree → Prop
  | node {m n : Node} {ts us : List Tree} (beats : m.beats = n.beats)
    (duration : m.duration = n.duration) (offset : m.offset = n.offset)
    (components : List.Forall₂ (Component.Alike same) m.components n.components)
    (children : List.Forall₂ (Tree.Alike same) ts us) : Tree.Alike same (.node m ts) (.node n us)

namespace Tree

/-- The fields of the record of a tree. -/
def fields : Tree → Document.Fields
  | .node n [] => nodeFields n
  | .node n (t :: ts) =>
    nodeFields n ++ [Document.field "children" (.list (toDocument t :: toDocuments ts))]

theorem toDocument_eq (t : Tree) : t.toDocument = .record t.fields := by
  obtain ⟨n, _ | ⟨t, ts⟩⟩ := t <;> rw [toDocument, fields]

theorem valueOf?_components (n : Node) (ts : List Tree) :
    (fields (.node n ts)).lookup (.text "components") =
      Document.listed? (n.components.map Component.toDocument) := by
  obtain ⟨beats, duration, offset, _ | ⟨c, cs⟩⟩ := n <;> cases ts <;> rfl

theorem valueOf?_children (n : Node) (ts : List Tree) :
    (fields (.node n ts)).lookup (.text "children") = Document.listed? (toDocuments ts) := by
  obtain ⟨beats, duration, offset, _ | ⟨c, cs⟩⟩ := n <;> cases ts <;> rfl

theorem valueOf?_time (n : Node) (ts : List Tree) :
    Document.valueOf? "beats" (fields (.node n ts)) = some (.int n.beats) ∧
      Document.valueOf? "duration" (fields (.node n ts)) = some (.text n.duration.text) ∧
      Document.valueOf? "offset" (fields (.node n ts)) = some (.text n.offset.text) := by
  obtain ⟨beats, duration, offset, _ | ⟨c, cs⟩⟩ := n <;> cases ts <;> exact ⟨rfl, rfl, rfl⟩

mutual

/-- **A tree is known from its record, node by node.** -/
theorem alike_of_toDocument (t u : Tree) (h : Document.Alike same t.toDocument u.toDocument) :
    Tree.Alike same t u := by
  obtain ⟨m, ts⟩ := t
  obtain ⟨n, us⟩ := u
  rw [toDocument_eq, toDocument_eq] at h
  obtain ⟨hb, hd, ho⟩ := valueOf?_time m ts
  obtain ⟨hb', hd', ho'⟩ := valueOf?_time n us
  have hc := h.lookup (.text "components")
  rw [valueOf?_components, valueOf?_components] at hc
  have hcs := Document.items_of_listed? hc
  rw [List.forall₂_map_left_iff, List.forall₂_map_right_iff] at hcs
  have ht := h.lookup (.text "children")
  rw [valueOf?_children, valueOf?_children] at ht
  exact .node (h.field _ hb hb').int_eq (h.field _ hd hd').duration_eq
    (h.field _ ho ho').duration_eq
    (hcs.imp fun _ _ hc => Component.alike_of_toDocument hc)
    (alike_of_toDocuments ts us (Document.items_of_listed? ht))

/-- Trees are known from their records. -/
theorem alike_of_toDocuments (ts us : List Tree)
    (h : List.Forall₂ (Document.Alike same) (toDocuments ts) (toDocuments us)) :
    List.Forall₂ (Tree.Alike same) ts us := by
  cases ts with
  | nil =>
    cases us with
    | nil => exact .nil
    | cons u us =>
      rw [toDocuments, toDocuments] at h
      cases h
  | cons t ts =>
    cases us with
    | nil =>
      rw [toDocuments, toDocuments] at h
      cases h
    | cons u us =>
      rw [toDocuments, toDocuments, List.forall₂_cons] at h
      exact .cons (alike_of_toDocument t u h.1) (alike_of_toDocuments ts us h.2)

end

mutual

/-- Trees are equal if floating point values that are the same are equal. -/
theorem eq_of_alike (t u : Tree) (h : Tree.Alike (· = ·) t u) : t = u := by
  obtain ⟨m, ts⟩ := t
  cases h with
  | @node _ n _ us beats duration offset components children =>
    have hcs := components.imp fun _ _ hc => hc.eq
    rw [List.forall₂_eq_eq_eq] at hcs
    obtain ⟨b, d, o, cs⟩ := m
    dsimp only at beats duration offset hcs
    rw [beats, duration, offset, hcs, eq_of_alike_all ts us children]

theorem eq_of_alike_all (ts us : List Tree) (h : List.Forall₂ (Tree.Alike (· = ·)) ts us) :
    ts = us := by
  cases ts with
  | nil =>
    cases h
    rfl
  | cons t ts =>
    cases h with
    | @cons _ u _ us ht hts => rw [eq_of_alike t u ht, eq_of_alike_all ts us hts]

end

end Tree

/-! ### Reports -/

theorem Severity.text_injective {s t : Severity} (h : s.text = t.text) : s = t := by
  cases s <;> cases t <;> first | rfl | simp [Severity.text] at h

namespace Issue

/-- The fields of the record of an issue. -/
def fields (i : Issue) : Document.Fields :=
  ("severity", .text i.severity.text) :: ("code", .text i.code) :: ("message", .text i.message) ::
    (i.location?.map fun place => Document.field "location" (.text place)).toList

theorem toDocument_eq (i : Issue) : i.toDocument = .record i.fields := by
  unfold toDocument fields
  cases i.location? <;> rfl

theorem valueOf?_location (i : Issue) :
    i.fields.lookup (.text "location") = i.location?.map Document.text := by
  unfold fields
  cases i.location? <;> rfl

/-- A location that is not empty is not left out. -/
theorem location?_eq {i : Issue} (h : i.location ≠ some "") : i.location? = i.location := by
  unfold location?
  cases hl : i.location with
  | none => rfl
  | some place =>
    have hne : place ≠ "" := fun e => h (hl.trans (congrArg some e))
    exact Option.filter_some_pos (decide_eq_true hne)

/-- An issue whose location is not empty is known from its record. -/
theorem eq_of_toDocument {i j : Issue} (hi : i.location ≠ some "") (hj : j.location ≠ some "")
    (h : Document.Alike same i.toDocument j.toDocument) : i = j := by
  rw [toDocument_eq, toDocument_eq] at h
  have hl := h.lookup (.text "location")
  rw [valueOf?_location, valueOf?_location, location?_eq hi, location?_eq hj] at hl
  have hlocation : i.location = j.location :=
    Document.eq_of_rel (Document.rel_of_map (fun _ _ hp => hp.text_eq) hl)
  have hseverity : i.severity = j.severity :=
    Severity.text_injective (h.field "severity" rfl rfl).string_eq
  have hcode : i.code = j.code := (h.field "code" rfl rfl).text_eq
  have hmessage : i.message = j.message := (h.field "message" rfl rfl).text_eq
  obtain ⟨severity, code, message, location⟩ := i
  obtain ⟨severity', code', message', location'⟩ := j
  dsimp only at hseverity hcode hmessage hlocation
  rw [hseverity, hcode, hmessage, hlocation]

end Issue

/-- No location in the report of a parse is empty. -/
theorem Finding.location_issue_ne (f : Finding) : f.issue.location ≠ some "" := by
  intro h
  have hp : ∀ index : Nat, Text.ofString (tokenPlace index) ≠ "" := by
    intro index he
    have hs := Text.ofString_injective he
    have hl := congrArg String.length hs
    simp [tokenPlace] at hl
  obtain ⟨index, -, hi⟩ := Option.map_eq_some_iff.mp h
  exact hp index hi

theorem Report.eq_of_toDocument {fs gs : List Finding}
    (h : Document.Alike same (Report.ofFindings fs).toDocument (Report.ofFindings gs).toDocument) :
    Report.ofFindings fs = Report.ofFindings gs := by
  have hi := h.items
  rw [List.forall₂_map_left_iff, List.forall₂_map_right_iff] at hi
  change List.Forall₂ _ (fs.map Finding.issue) (gs.map Finding.issue) at hi
  rw [List.forall₂_map_left_iff, List.forall₂_map_right_iff] at hi
  have he : List.Forall₂ (· = ·) (fs.map Finding.issue) (gs.map Finding.issue) := by
    rw [List.forall₂_map_left_iff, List.forall₂_map_right_iff]
    exact hi.imp fun f g hfg =>
      Issue.eq_of_toDocument f.location_issue_ne g.location_issue_ne hfg
  rw [List.forall₂_eq_eq_eq] at he
  exact congrArg Report.mk he

/-! ### Scores -/

theorem Measure.eq_of_toDocument {m n : Measure}
    (h : Document.Alike same m.toDocument n.toDocument) : m = n := by
  have hnumber : m.number = n.number := (h.field "number" rfl rfl).int_eq
  have hoffset : m.offset = n.offset := (h.field "offset" rfl rfl).duration_eq
  have hduration : m.duration = n.duration := (h.field "duration" rfl rfl).duration_eq
  obtain ⟨number, offset, duration⟩ := m
  dsimp only at hnumber hoffset hduration
  rw [hnumber, hoffset, hduration]

theorem Tempo.eq_of_toDocument {t u : Tempo}
    (h : Document.Alike same t.toDocument u.toDocument) : t = u := by
  have hvalue : t.value = u.value := (h.field "value" rfl rfl).int_eq
  have hsubdivision : t.subdivision = u.subdivision :=
    (h.field "subdivision_value" rfl rfl).int_eq
  have hoffset : t.offset = u.offset := (h.field "offset" rfl rfl).duration_eq
  obtain ⟨value, subdivision, offset⟩ := t
  dsimp only at hvalue hsubdivision hoffset
  rw [hvalue, hsubdivision, hoffset]

theorem Rehearsal.eq_of_toDocument {r s : Rehearsal}
    (h : Document.Alike same r.toDocument s.toDocument) : r = s := by
  have hindex : r.index = s.index := (h.field "index" rfl rfl).int_eq
  have hlabel : r.label = s.label := (h.field "type" rfl rfl).text_eq
  have hoffset : r.offset = s.offset := (h.field "offset" rfl rfl).duration_eq
  obtain ⟨index, label, offset⟩ := r
  dsimp only at hindex hlabel hoffset
  rw [hindex, hlabel, hoffset]

theorem Instrument.name_injective {i j : Instrument} (h : i.name = j.name) : i = j := by
  have hi := Instrument.ofName?_name i
  rw [h, Instrument.ofName?_name] at hi
  exact (Option.some.inj hi).symm

namespace Score

/-- Two scores hold the same, and their trees as far as floating point values are. The order in
which keys were stored does not count. -/
structure Alike (same : Binary64 → Binary64 → Prop) (a b : Score) : Prop where
  title : a.title = b.title
  metadata : ∀ key, a.metadata.get? key = b.metadata.get? key
  measures : a.measures = b.measures
  forest : List.Forall₂ (Tree.Alike same) a.forest b.forest
  tempi : a.tempi = b.tempi
  rehearsals : a.rehearsals = b.rehearsals
  performers : ∀ id, Option.Rel (fun i j => ∀ key, i.get? key = j.get? key)
    (a.performers.get? id) (b.performers.get? id)
  report : a.report = b.report

/-- **A score is known from its record**, provided that its report was made of findings. -/
theorem alike_of_toDocument {a b : Score} {fs gs : List Finding}
    (ha : a.report = .ofFindings fs) (hb : b.report = .ofFindings gs)
    (h : Document.Alike same a.toDocument b.toDocument) : a.Alike same b := by
  have hinstrument : ∀ i j : Instrument,
      Document.Alike same (.text i.name) (.text j.name) → i = j :=
    fun i j hij => Instrument.name_injective hij.string_eq
  constructor
  case title => exact (h.field "title" rfl rfl).text_eq
  case metadata =>
    intro key
    exact Document.eq_of_rel (Document.get?_of_alike (fun _ _ hv => hv.text_eq)
      (h.field "metadata" rfl rfl) key)
  case measures =>
    exact Document.eq_of_forall₂_map (fun _ _ => Measure.eq_of_toDocument)
      (h.field "measures" rfl rfl).items
  case forest =>
    exact Tree.alike_of_toDocuments _ _ (h.field "duration_nodes" rfl rfl).items
  case tempi =>
    exact Document.eq_of_forall₂_map (fun _ _ => Tempo.eq_of_toDocument)
      (h.field "tempo_markings" rfl rfl).items
  case rehearsals =>
    exact Document.eq_of_forall₂_map (fun _ _ => Rehearsal.eq_of_toDocument)
      (h.field "rehearsal_markings" rfl rfl).items
  case performers =>
    intro id
    have hinstruments : ∀ i j, Document.Alike same (instrumentsDocument i) (instrumentsDocument j) →
        ∀ key, i.get? key = j.get? key := by
      intro i j hij key
      exact Document.eq_of_rel (Document.get?_of_alike hinstrument hij key)
    exact Document.get?_of_alike hinstruments (h.field "performers" rfl rfl) id
  case report =>
    have hr : Document.Alike same a.report.toDocument b.report.toDocument :=
      h.field "diagnostics" rfl rfl
    rw [ha, hb] at hr ⊢
    exact Report.eq_of_toDocument hr

theorem Alike.forest_eq {a b : Score} (h : a.Alike (· = ·) b) : a.forest = b.forest :=
  Tree.eq_of_alike_all _ _ h.forest

/-- Scores whose keys were stored in different orders have records with the same contents. -/
theorem alike_toDocument_of_perm {a b : Score} (hm : a.metadata.entries.Perm b.metadata.entries)
    (hp : a.performers.entries.Perm b.performers.entries)
    (h : { a with metadata := b.metadata, performers := b.performers } = b) :
    Document.Alike (· = ·) a.toDocument b.toDocument := by
  have hmetadata := Document.alike_of_perm .text hm fun _ _ => .text _
  have hperformers := Document.alike_of_perm instrumentsDocument hp fun entry _ =>
    isJson_instrumentsDocument entry.2
  have hj := a.isJson_toDocument
  simp only [toDocument, Document.Json.isJson_record_cons] at hj
  obtain ⟨-, htitle, -, -, -, hmeasures, -, hforest, -, htempi, -, hrehearsals, -, -, -,
    hreport, -⟩ := hj
  rw [← h]
  exact .of_fields (.cons ⟨rfl, .refl htitle⟩ (.cons ⟨rfl, hmetadata⟩
    (.cons ⟨rfl, .refl hmeasures⟩ (.cons ⟨rfl, .refl hforest⟩ (.cons ⟨rfl, .refl htempi⟩
      (.cons ⟨rfl, .refl hrehearsals⟩ (.cons ⟨rfl, hperformers⟩
        (.cons ⟨rfl, .refl hreport⟩ .nil))))))))

end Score

theorem exists_findings_of_build {strict : Bool} {ts : List Token} {score : Score}
    (h : build strict ts = .ok score) : ∃ fs, score.report = .ofFindings fs := by
  unfold build at h
  split at h
  · next s _ =>
    obtain rfl := Except.ok.inj h
    exact ⟨_, rfl⟩
  · cases h

theorem exists_tokens_of_parse {strict : Bool} {raw : Document} {score : Score}
    (h : parse strict raw = .ok score) :
    ∃ ts, tokensOf raw = .ok ts ∧ build strict ts = .ok score := by
  unfold parse parseReporting at h
  cases ht : tokensOf raw with
  | error error =>
    rw [ht] at h
    cases h
  | ok ts =>
    rw [ht] at h
    dsimp only at h
    cases hb : build strict ts with
    | ok score' =>
      rw [hb] at h
      obtain rfl : score' = score := Except.ok.inj h
      exact ⟨ts, rfl, hb⟩
    | error halted =>
      rw [hb] at h
      cases h

theorem exists_build_of_parse {strict : Bool} {raw : Document} {score : Score}
    (h : parse strict raw = .ok score) : ∃ ts, build strict ts = .ok score :=
  (exists_tokens_of_parse h).imp fun _ ht => ht.2

/-- **A parsed score is known from its record.** Two parses may be strict or lenient and may read
any streams. If the records of their scores have the same contents, then the scores have the same
title, metadata, measures, markings, performers and issues, and the same trees with the same
components on their nodes. -/
theorem alike_of_parse {strict strict' : Bool} {raw raw' : Document} {a b : Score}
    (ha : parse strict raw = .ok a) (hb : parse strict' raw' = .ok b)
    (h : Document.Alike same a.toDocument b.toDocument) : a.Alike same b := by
  obtain ⟨ts, hts⟩ := exists_build_of_parse ha
  obtain ⟨us, hus⟩ := exists_build_of_parse hb
  obtain ⟨fs, hfs⟩ := exists_findings_of_build hts
  obtain ⟨gs, hgs⟩ := exists_findings_of_build hus
  exact Score.alike_of_toDocument hfs hgs h

/-- An item of a stream. -/
def itemDocument (kind : String) (k : Keyword) (fields : Document.Fields) : Document :=
  .record (("kind", .text kind) :: ("identifier", .text k.spelling) :: fields)

/-- An item with a text. -/
def textDocument (k : Keyword) (value : Text) : Document :=
  itemDocument "string" k [("value", .text value)]

/-- An item that adds a node below a root. -/
def nodeDocument (k : Keyword) (beats level : Int) : Document :=
  itemDocument "int" k [("value", .int beats), ("indentation_level", .int level)]

/-- An item that declares one instrument of a performer. -/
def declarationDocument (performer typeName : Text) : Document :=
  itemDocument "container" .performerDeclaration [("opening_value", .text performer),
    ("tokens", .list
      [textDocument .instrumentId "first", textDocument .instrumentType typeName])]

/-- A tree with two leaves below an inner node, a pitch on the one and a rest on the other, and at
last a value of metadata without a key. -/
def orchestraItems : List Document :=
  [itemDocument "duration" .rootDuration [("value", .int 4)],
    textDocument .performerId "winds", textDocument .instrumentId "first",
    nodeDocument .innerNode 1 1, nodeDocument .leafNode 1 2,
    itemDocument "container" .pitch
      [("tokens", .list [itemDocument "float" .value [("value", .int 60)]])],
    nodeDocument .leafNode 2 2, textDocument .rest "", nodeDocument .leafNode 2 1,
    textDocument .metadataValue "slow"]

/-- The items behind some metadata and some performers with the types of their instruments. -/
def orchestraStream (metadata performers : List (Text × Text)) : Document :=
  .list (metadata.flatMap (fun entry =>
      [textDocument .metadataKey entry.1, textDocument .metadataValue entry.2]) ++
    performers.map (fun entry => declarationDocument entry.1 entry.2) ++ orchestraItems)

/-- The tree before it is normalized. -/
def orchestraTree : Tree :=
  .node { duration := .ofNat 4 }
    [.node {}
      [.node { components := [⟨"winds", "first", .pitch [.ofRatio false 60 1]⟩] } [],
        .node { beats := 2, components := [⟨"winds", "first", .rest⟩] } []],
      .node { beats := 2 } []]

/-- The score of the items behind some metadata and some performers with their instruments. -/
def orchestraScore (metadata : List (Text × Text)) (performers : List (Text × Instrument)) :
    Score :=
  { metadata := .ofList metadata
    performers := .ofList (performers.map fun entry => (entry.1, .ofList [("first", entry.2)]))
    forest := [orchestraTree.normalize]
    report := .ofFindings ([.orphanValue 15 "slow"] ++ BuilderState.indivisible [orchestraTree]) }

theorem alike_of_parse_orchestraStream :
    ∃ a b,
      parse true (orchestraStream [("mode", "slow"), ("key", "F")]
        [("strings", "Viola"), ("winds", "Flute")]) = .ok a ∧
      parse false (orchestraStream [("key", "F"), ("mode", "slow")]
        [("winds", "Flute"), ("strings", "Viola")]) = .ok b ∧
      Document.Alike (· = ·) a.toDocument b.toDocument ∧ a.Alike (· = ·) b ∧
      a.performerIds = ["strings", "winds"] ∧ b.performerIds = ["winds", "strings"] ∧
      a.componentCount = 2 ∧ a.report.issues.length = 1 := by
  have ha : parse true (orchestraStream [("mode", "slow"), ("key", "F")]
        [("strings", "Viola"), ("winds", "Flute")]) =
      .ok (orchestraScore [("mode", "slow"), ("key", "F")]
        [("strings", .viola), ("winds", .flute)]) := rfl
  have hb : parse false (orchestraStream [("key", "F"), ("mode", "slow")]
        [("winds", "Flute"), ("strings", "Viola")]) =
      .ok (orchestraScore [("key", "F"), ("mode", "slow")]
        [("winds", .flute), ("strings", .viola)]) := rfl
  have hd := Score.alike_toDocument_of_perm
    (a := orchestraScore [("mode", "slow"), ("key", "F")] [("strings", .viola), ("winds", .flute)])
    (b := orchestraScore [("key", "F"), ("mode", "slow")] [("winds", .flute), ("strings", .viola)])
    (.swap _ _ []) (.swap _ _ []) rfl
  exact ⟨_, _, ha, hb, hd, alike_of_parse ha hb hd, rfl, rfl, by decide +kernel, by decide +kernel⟩

end RhythmTree
