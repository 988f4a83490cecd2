import RhythmTree.Builder.Parse
import RhythmTree.Proofs.Tables
import RhythmTree.Proofs.WrittenDocuments

/-!
# Scores in JSON

A score that has been written as JSON is read back as it was, up to one thing: two halves of one
character that stand side by side are read as that character. So a score comes back exactly if and
only if none of its texts has two such halves. The texts that the record adds, as names of fields
and for durations, kinds and severities, have no halves.

* `Document.Json.reread_eq_self_iff`: **a document that JSON has a form for comes back if and only
  if its texts do.**
* `Score.isJson_toDocument`: JSON has a form for the record of a score.
* `Score.unpaired_toDocument`: only the texts of the score matter.
* `Score.readBack_iff`: **the record of a score comes back if and only if the texts of the score
  do**, whatever the indentation.
-/

namespace RhythmTree

/-! ### Tables from lists -/

namespace Table

variable {α β : Type} [DecidableEq α]

theorem length_entries_put (table : Table α β) (key : α) (value : β) :
    (table.put key value).entries.length =
      if key ∈ table.keys then table.entries.length else table.entries.length + 1 := by
  have hk := congrArg List.length (table.keys_put key value)
  unfold keys at hk ⊢
  rw [List.length_map] at hk
  rw [hk]
  split <;> simp

theorem ofList_concat (pairs : List (α × β)) (pair : α × β) :
    ofList (pairs ++ [pair]) = (ofList pairs).put pair.1 pair.2 := by
  rw [ofList, List.foldl_append]
  rfl

theorem length_entries_ofList_le (pairs : List (α × β)) :
    (ofList pairs).entries.length ≤ pairs.length := by
  induction pairs using List.reverseRecOn with
  | nil => exact Nat.le_refl _
  | append_singleton pairs pair ih =>
    rw [ofList_concat, length_entries_put, List.length_append, List.length_singleton]
    split <;> omega

/-- A table that is as long as the list it was made from is that list. -/
theorem entries_ofList_of_length {pairs : List (α × β)}
    (h : (ofList pairs).entries.length = pairs.length) : (ofList pairs).entries = pairs := by
  induction pairs using List.reverseRecOn with
  | nil => rfl
  | append_singleton pairs pair ih =>
    have hle := length_entries_ofList_le pairs
    rw [ofList_concat, length_entries_put, List.length_append, List.length_singleton] at h
    by_cases hk : pair.1 ∈ (ofList pairs).keys
    · rw [if_pos hk] at h
      omega
    · rw [if_neg hk] at h
      rw [ofList_concat, entries_put_of_not_mem hk, ih (by omega)]

/-- A list in which no key occurs twice is the table that is made from it. -/
theorem entries_ofList_of_nodup {pairs : List (α × β)} (h : (pairs.map Prod.fst).Nodup) :
    (ofList pairs).entries = pairs := by
  induction pairs using List.reverseRecOn with
  | nil => rfl
  | append_singleton pairs pair ih =>
    rw [List.map_append, List.nodup_append] at h
    obtain ⟨hn, -, hd⟩ := h
    have hk : pair.1 ∉ (ofList pairs).keys := by
      unfold keys
      rw [ih hn]
      exact fun hm => hd pair.1 hm pair.1 (List.mem_singleton.mpr rfl) rfl
    rw [ofList_concat, entries_put_of_not_mem hk, ih hn]

/-- A table of as many entries as it was made from has just these. -/
theorem entries_ofList_eq_iff {pairs entries : List (α × β)} (hl : pairs.length = entries.length)
    (hn : (entries.map Prod.fst).Nodup) : (ofList pairs).entries = entries ↔ pairs = entries := by
  constructor
  · intro he
    have hlength : (ofList pairs).entries.length = pairs.length := by rw [he, hl]
    rw [← entries_ofList_of_length hlength, he]
  · intro he
    rw [he]
    exact entries_ofList_of_nodup hn

end Table

namespace Document.Json

/-! ### Documents that JSON has a form for -/

/-- JSON has a form for a document: its names are texts and none stands twice in a record, and it is
made of lists, records, texts, numbers, truth values and absent values. -/
inductive IsJson : Document → Prop
  | null : IsJson .null
  | bool (b : Bool) : IsJson (.bool b)
  | int (n : Int) : IsJson (.int n)
  | float (x : Decimal.Binary64) : IsJson (.float x)
  | text (t : Text) : IsJson (.text t)
  | list {items : List Document} (h : ∀ d ∈ items, IsJson d) : IsJson (.list items)
  | record (fields : List (Text × Document)) (hn : (fields.map Prod.fst).Nodup)
    (h : ∀ field ∈ fields, IsJson field.2) :
    IsJson (.record (fields.map fun field => (.text field.1, field.2)))

mutual

/-- The texts in a document, and the names of fields among them. -/
def textsIn : Document → List Text
  | .text t => [t]
  | .list items | .set items => textsInAll items
  | .pair first second => textsIn first ++ textsIn second
  | .record fields => textsInFields fields
  | _ => []

/-- The texts in some items. -/
def textsInAll : List Document → List Text
  | [] => []
  | item :: rest => textsIn item ++ textsInAll rest

/-- The texts in some fields. -/
def textsInFields : Fields → List Text
  | [] => []
  | (name, value) :: rest => writtenName name :: (textsIn value ++ textsInFields rest)

end

/-- No text in a document has two halves of one character side by side. -/
def Unpaired (d : Document) : Prop := ∀ t ∈ textsIn d, t.Unpaired

theorem mem_textsInAll {items : List Document} {t : Text} :
    t ∈ textsInAll items ↔ ∃ d ∈ items, t ∈ textsIn d := by
  induction items with
  | nil => simp [textsInAll]
  | cons item rest ih => simp [textsInAll, ih]

theorem mem_textsInFields {fields : List (Text × Document)} {t : Text} :
    t ∈ textsInFields (fields.map fun field => (.text field.1, field.2)) ↔
      ∃ field ∈ fields, t = field.1 ∨ t ∈ textsIn field.2 := by
  induction fields with
  | nil => simp [textsInFields]
  | cons field rest ih =>
    rw [List.map_cons, textsInFields]
    simp [writtenName, ih]
    grind

theorem rereadAll_eq_map (items : List Document) : rereadAll items = items.map reread := by
  induction items with
  | nil => rfl
  | cons item rest ih => rw [rereadAll, ih, List.map_cons]

theorem rereadFields_eq_map (fields : List (Text × Document)) :
    rereadFields (fields.map fun field => (.text field.1, field.2)) =
      fields.map fun field => (field.1.joined, reread field.2) := by
  induction fields with
  | nil => rfl
  | cons field rest ih =>
    rw [List.map_cons, rereadFields, ih, List.map_cons]
    rfl

theorem closeRecord_reverse (pairs : List (Text × Document)) :
    closeRecord pairs.reverse =
      .record ((Table.ofList pairs).entries.map fun field => (.text field.1, field.2)) := by
  rw [closeRecord, List.reverse_reverse]

theorem fields_injective : Function.Injective
    fun fields : List (Text × Document) =>
      fields.map fun field => ((.text field.1 : Name), field.2) := by
  refine List.map_injective_iff.mpr ?_
  rintro ⟨k, v⟩ ⟨k', v'⟩ h
  cases h
  rfl

theorem unpaired_text {t : Text} : Unpaired (.text t) ↔ t.Unpaired := by
  simp [Unpaired, textsIn]

theorem unpaired_list {items : List Document} :
    Unpaired (.list items) ↔ ∀ d ∈ items, Unpaired d := by
  simp only [Unpaired, textsIn, mem_textsInAll]
  exact ⟨fun h d hd t ht => h t ⟨d, hd, ht⟩, fun h t ⟨d, hd, ht⟩ => h d hd t ht⟩

theorem unpaired_record {fields : List (Text × Document)} :
    Unpaired (.record (fields.map fun field => (.text field.1, field.2))) ↔
      ∀ field ∈ fields, field.1.Unpaired ∧ Unpaired field.2 := by
  simp only [Unpaired, textsIn, mem_textsInFields]
  constructor
  · intro h field hf
    exact ⟨h _ ⟨field, hf, .inl rfl⟩, fun t ht => h t ⟨field, hf, .inr ht⟩⟩
  · rintro h t ⟨field, hf, rfl | ht⟩
    · exact (h field hf).1
    · exact (h field hf).2 t ht

theorem map_eq_self_iff {α : Type} {f : α → α} {l : List α} :
    l.map f = l ↔ ∀ x ∈ l, f x = x := by
  conv_lhs => rhs; rw [← List.map_id l]
  exact List.map_inj_left

/-- **A document that JSON has a form for comes back if and only if its texts do.** -/
theorem reread_eq_self_iff {d : Document} (h : IsJson d) : reread d = d ↔ Unpaired d := by
  induction h with
  | null | bool b | int n | float x => simp [reread, Unpaired, textsIn]
  | text t => rw [reread, Document.text.injEq, Text.joined_eq_self_iff, unpaired_text]
  | @list items h ih =>
    rw [reread, rereadAll_eq_map, Document.list.injEq, map_eq_self_iff, unpaired_list]
    exact forall₂_congr ih
  | record fields hn h ih =>
    rw [reread, rereadFields_eq_map, closeRecord_reverse, Document.record.injEq,
      fields_injective.eq_iff, Table.entries_ofList_eq_iff (List.length_map _) hn, map_eq_self_iff,
      unpaired_record]
    refine forall₂_congr fun field hf => ?_
    rw [Prod.mk.injEq, Text.joined_eq_self_iff, ih field hf]

/-! ### Records field by field -/

theorem isJson_record_nil : IsJson (.record []) := .record [] List.nodup_nil (by simp)

theorem isJson_record_cons {name : Text} {value : Document} {fields : Fields} :
    IsJson (.record ((.text name, value) :: fields)) ↔
      Name.text name ∉ fields.map Prod.fst ∧ IsJson value ∧ IsJson (.record fields) := by
  have hmem (rest : List (Text × Document)) :
      Name.text name ∈ (rest.map fun f => ((.text f.1 : Name), f.2)).map Prod.fst ↔
        name ∈ rest.map Prod.fst := by
    simp
  constructor
  · intro h
    generalize hd : Document.record ((.text name, value) :: fields) = d at h
    cases h with
    | record fields' hn hv =>
      cases fields' with
      | nil => cases hd
      | cons f rest =>
        obtain ⟨k, v⟩ := f
        cases hd
        rw [List.map_cons, List.nodup_cons] at hn
        rw [List.forall_mem_cons] at hv
        exact ⟨fun hm => hn.1 ((hmem rest).mp hm), hv.1, .record rest hn.2 hv.2⟩
    | _ => cases hd
  · rintro ⟨hn, hv, h⟩
    cases h with
    | record rest hrest hvalues =>
      refine .record ((name, value) :: rest) ?_ (List.forall_mem_cons.mpr ⟨hv, hvalues⟩)
      exact List.nodup_cons.mpr ⟨fun hm => hn ((hmem rest).mpr hm), hrest⟩

theorem unpaired_int {n : Int} : Unpaired (.int n) := by simp [Unpaired, textsIn]

theorem unpaired_float {x : Decimal.Binary64} : Unpaired (.float x) := by simp [Unpaired, textsIn]

theorem unpaired_record_nil : Unpaired (.record []) := by
  simp [Unpaired, textsIn, textsInFields]

theorem unpaired_record_cons {name : Text} {value : Document} {fields : Fields} :
    Unpaired (.record ((.text name, value) :: fields)) ↔
      name.Unpaired ∧ Unpaired value ∧ Unpaired (.record fields) := by
  simp [Unpaired, textsIn, textsInFields, writtenName, or_imp, forall_and]

end Document.Json

open Document.Json

/-! ### JSON has a form for every score -/

section

theorem Text.ofString_inj {s t : String} : Text.ofString s = Text.ofString t ↔ s = t :=
  ⟨Text.ofString_injective, congrArg Text.ofString⟩

theorem isJson_list_map {α : Type} {write : α → Document} {items : List α}
    (h : ∀ x ∈ items, IsJson (write x)) : IsJson (.list (items.map write)) :=
  .list (List.forall_mem_map.mpr h)

theorem isJson_record_table {β : Type} (write : β → Document) {table : Table Text β}
    (h : ∀ entry ∈ table.entries, IsJson (write entry.2)) :
    IsJson (.record (table.entries.map fun entry => (.text entry.1, write entry.2))) := by
  have hr := IsJson.record (table.entries.map fun entry => (entry.1, write entry.2))
    (by rw [List.map_map]; exact table.nodup) (List.forall_mem_map.mpr h)
  rwa [List.map_map] at hr

attribute [local simp] IsJson.int IsJson.float IsJson.text isJson_record_nil isJson_record_cons
  Text.ofString_inj

theorem Component.isJson_toDocument (c : Component) : IsJson c.toDocument := by
  have hpitch : ∀ values : List Decimal.Binary64, IsJson (.list (values.map .float)) :=
    fun values => isJson_list_map fun x _ => .float x
  have hmarkings : ∀ markings : List Text, IsJson (.list (markings.map .text)) :=
    fun markings => isJson_list_map fun t _ => .text t
  obtain ⟨performer, instrument, event⟩ := c
  cases event <;> simp [toDocument, Event.payload, Document.texts, hpitch, hmarkings]

theorem isJson_components (cs : List Component) :
    IsJson (.list (cs.map Component.toDocument)) :=
  isJson_list_map fun c _ => c.isJson_toDocument

namespace Tree

theorem isJson_record_nodeFields (n : Node) : IsJson (.record (nodeFields n)) := by
  have hc := isJson_components n.components
  unfold nodeFields
  dsimp only
  split <;> simp [Document.field, hc]

theorem isJson_record_children (n : Node) {children : Document} (h : IsJson children) :
    IsJson (.record (nodeFields n ++ [Document.field "children" children])) := by
  have hc := isJson_components n.components
  unfold nodeFields
  dsimp only
  split <;> simp [Document.field, hc, h]

mutual

theorem isJson_toDocument (t : Tree) : IsJson t.toDocument := by
  obtain ⟨n, _ | ⟨t, ts⟩⟩ := t
  · rw [toDocument]
    exact isJson_record_nodeFields n
  · rw [toDocument]
    exact isJson_record_children n (.list (isJson_toDocuments (t :: ts)))

theorem isJson_toDocuments (ts : List Tree) : ∀ d ∈ toDocuments ts, IsJson d := by
  cases ts with
  | nil => simp [toDocuments]
  | cons t ts =>
    rw [toDocuments]
    exact List.forall_mem_cons.mpr ⟨isJson_toDocument t, isJson_toDocuments ts⟩

end

end Tree

theorem Issue.isJson_toDocument (i : Issue) : IsJson i.toDocument := by
  unfold toDocument
  dsimp only
  split <;> simp [Document.field]

namespace Score

theorem isJson_instrumentsDocument (instruments : Instruments) :
    IsJson (instrumentsDocument instruments) :=
  isJson_record_table (fun kind : Instrument => .text kind.name) fun entry _ => .text entry.2.name

/-- **JSON has a form for the record of a score.** -/
theorem isJson_toDocument (s : Score) : IsJson s.toDocument := by
  have hmeasures : IsJson (.list (s.measures.map Measure.toDocument)) :=
    isJson_list_map fun m _ => by simp [Measure.toDocument]
  have htempi : IsJson (.list (s.tempi.map Tempo.toDocument)) :=
    isJson_list_map fun t _ => by simp [Tempo.toDocument]
  have hrehearsals : IsJson (.list (s.rehearsals.map Rehearsal.toDocument)) :=
    isJson_list_map fun r _ => by simp [Rehearsal.toDocument]
  have hforest : IsJson (.list (Tree.toDocuments s.forest)) := .list (Tree.isJson_toDocuments _)
  have hmetadata : IsJson (.record (s.metadata.entries.map fun e => (.text e.1, .text e.2))) :=
    isJson_record_table .text fun e _ => .text e.2
  have hperformers : IsJson (.record (s.performers.entries.map fun e =>
      (.text e.1, instrumentsDocument e.2))) :=
    isJson_record_table instrumentsDocument fun e _ => isJson_instrumentsDocument e.2
  have hreport : IsJson s.report.toDocument := isJson_list_map fun i _ => i.isJson_toDocument
  simp [toDocument, hmeasures, htempi, hrehearsals, hforest, hmetadata, hperformers, hreport]

end Score

end

/-! ### The texts of a score -/

/-- The texts of an event. -/
def Event.texts : Event → List Text
  | .dynamic marking => [marking]
  | .articulation markings => markings
  | _ => []

/-- The identifiers and markings of a component. -/
def Component.texts (c : Component) : List Text := c.performer :: c.instrument :: c.event.texts

/-- The code, the message and the location of an issue. -/
def Issue.texts (i : Issue) : List Text := i.code :: i.message :: i.location.toList

/-- The texts that a score holds: the title, keys and values of the metadata, identifiers, markings,
and the texts of the report. -/
def Score.texts (s : Score) : List Text :=
  s.title :: s.metadata.entries.flatMap (fun entry => [entry.1, entry.2]) ++
    (Rose.labelsAll s.forest).flatMap (fun n => n.components.flatMap Component.texts) ++
    s.rehearsals.map Rehearsal.label ++
    s.performers.entries.flatMap (fun entry => entry.1 :: entry.2.keys) ++
    s.report.issues.flatMap Issue.texts

section

theorem Text.unpaired_ofString (s : String) : (Text.ofString s).Unpaired := by
  unfold Text.Unpaired Text.ofString Text.ofChars
  rw [List.isChain_map]
  exact (List.pairwise_of_forall fun c d => Text.isPair_char_left c _).isChain

theorem unpaired_record_table {β : Type} (write : β → Document) (table : Table Text β) :
    Unpaired (.record (table.entries.map fun entry => (.text entry.1, write entry.2))) ↔
      ∀ entry ∈ table.entries, entry.1.Unpaired ∧ Unpaired (write entry.2) := by
  induction table.entries with
  | nil => simp [unpaired_record_nil]
  | cons entry rest ih =>
    rw [List.map_cons, unpaired_record_cons, ih, List.forall_mem_cons, and_assoc]

attribute [local simp] unpaired_int unpaired_float unpaired_text unpaired_list unpaired_record_nil
  unpaired_record_cons Text.unpaired_ofString

theorem Component.unpaired_toDocument (c : Component) :
    Unpaired c.toDocument ↔ ∀ t ∈ c.texts, t.Unpaired := by
  obtain ⟨performer, instrument, event⟩ := c
  cases event <;> simp [toDocument, Event.payload, Document.texts, texts, Event.texts]

namespace Tree

theorem unpaired_record_nodeFields (n : Node) (rest : Document.Fields) :
    Unpaired (.record (nodeFields n ++ rest)) ↔
      (∀ c ∈ n.components, ∀ t ∈ c.texts, t.Unpaired) ∧ Unpaired (.record rest) := by
  unfold nodeFields
  dsimp only
  split
  · next h => simp [List.isEmpty_iff.mp h]
  · simp [Document.field, Component.unpaired_toDocument]

mutual

theorem unpaired_toDocument (t : Tree) :
    Unpaired t.toDocument ↔
      ∀ n ∈ Rose.labels t, ∀ c ∈ n.components, ∀ t ∈ c.texts, t.Unpaired := by
  obtain ⟨n, _ | ⟨t, ts⟩⟩ := t
  · have h := unpaired_record_nodeFields n []
    rw [List.append_nil] at h
    rw [toDocument, h, Rose.labels]
    simp [Rose.labelsAll]
  · have h := unpaired_toDocuments (t :: ts)
    rw [toDocument, unpaired_record_nodeFields, Rose.labels, List.forall_mem_cons, ← h, toDocuments]
    simp [Document.field]

theorem unpaired_toDocuments (ts : List Tree) :
    (∀ d ∈ toDocuments ts, Unpaired d) ↔
      ∀ n ∈ Rose.labelsAll ts, ∀ c ∈ n.components, ∀ t ∈ c.texts, t.Unpaired := by
  cases ts with
  | nil => simp [toDocuments, Rose.labelsAll]
  | cons t ts =>
    rw [toDocuments, List.forall_mem_cons, unpaired_toDocument t, unpaired_toDocuments ts,
      Rose.labelsAll, List.forall_mem_append]

end

end Tree

theorem Issue.unpaired_toDocument (i : Issue) :
    Unpaired i.toDocument ↔ ∀ t ∈ i.texts, t.Unpaired := by
  obtain ⟨severity, code, message, location⟩ := i
  cases location with
  | none => simp [toDocument, location?, texts]
  | some place =>
    by_cases h : place = Text.ofString ""
    · simp [toDocument, location?, texts, Option.filter_some, h]
    · simp [toDocument, location?, texts, Option.filter_some, h, Document.field]

namespace Score

theorem unpaired_instrumentsDocument (instruments : Instruments) :
    Unpaired (instrumentsDocument instruments) ↔ ∀ t ∈ instruments.keys, t.Unpaired := by
  have h := unpaired_record_table (fun kind : Instrument => .text kind.name) instruments
  rw [instrumentsDocument, h, Table.keys, List.forall_mem_map]
  simp

/-- **The record of a score has no texts with two halves side by side but those of the score.** -/
theorem unpaired_toDocument (s : Score) : Unpaired s.toDocument ↔ ∀ t ∈ s.texts, t.Unpaired := by
  have hmeasures : Unpaired (.list (s.measures.map Measure.toDocument)) := by
    simp [Measure.toDocument]
  have htempi : Unpaired (.list (s.tempi.map Tempo.toDocument)) := by
    simp [Tempo.toDocument]
  have hrehearsals : Unpaired (.list (s.rehearsals.map Rehearsal.toDocument)) ↔
      ∀ r ∈ s.rehearsals, r.label.Unpaired := by
    simp [Rehearsal.toDocument]
  have hreport : Unpaired s.report.toDocument ↔
      ∀ i ∈ s.report.issues, ∀ t ∈ i.texts, t.Unpaired := by
    simp [Report.toDocument, Issue.unpaired_toDocument]
  rw [toDocument]
  simp only [unpaired_record_cons, unpaired_record_nil, unpaired_text, Text.unpaired_ofString,
    unpaired_record_table, unpaired_list.trans (Tree.unpaired_toDocuments s.forest), hmeasures,
    htempi, hrehearsals, hreport, unpaired_instrumentsDocument, true_and, and_true]
  simp only [texts, List.forall_mem_append, List.forall_mem_cons, List.forall_mem_flatMap,
    List.forall_mem_map, List.not_mem_nil, IsEmpty.forall_iff, implies_true, and_assoc, and_true]

theorem read?_print_toDocument_iff (s : Score) {style : Style} (hs : style.Blank) :
    read? (Text.ofString (print style s.toDocument)) = some s.toDocument ↔
      ∀ t ∈ s.texts, t.Unpaired := by
  rw [read?_print hs, Option.some.injEq, reread_eq_self_iff s.isJson_toDocument,
    s.unpaired_toDocument]

/-- **The record of a score comes back from its JSON text if and only if no text of the score has
two halves of one character side by side**, and otherwise with the two read as one. -/
theorem readBack_iff (s : Score) (indent : Nat) :
    read? (Text.ofString (print (.blanks indent) s.toDocument)) = some (reread s.toDocument) ∧
      (read? (Text.ofString (print (.blanks indent) s.toDocument)) = some s.toDocument ↔
        ∀ t ∈ s.texts, t.Unpaired) :=
  ⟨read?_print (blank_blanks indent) s.toDocument,
    s.read?_print_toDocument_iff (blank_blanks indent)⟩

/-- The two halves of a smiling face side by side. -/
def faceHalves : Text := ⟨[.half 0x3D, .half 0x600]⟩

/-- A stream that sets nothing but a title. -/
def titleStream (title : Text) : Document :=
  .list [.record [("kind", .text "string"), ("identifier", .text "Title"),
    ("value", .text title)]]

theorem not_readBack_faceHalves :
    parse false (titleStream faceHalves) = .ok { title := faceHalves } ∧
      read? (Text.ofString (print (.blanks 2) ({ title := faceHalves } : Score).toDocument)) ≠
        some ({ title := faceHalves } : Score).toDocument := by
  refine ⟨rfl, fun h => ?_⟩
  rw [read?_print_toDocument_iff _ (blank_blanks 2)] at h
  have hu : faceHalves.Unpaired := h faceHalves (by simp [texts])
  exact absurd hu (by decide)

end Score

end

end RhythmTree
