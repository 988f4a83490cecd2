import Mathlib.Data.List.Basic
import RhythmTree.Library.Basic
import RhythmTree.Proofs.FileTrees
import RhythmTree.Proofs.Payloads

/-!
# Lists of streams

A list reads every stream file of the two directories. A file that cannot be read, that holds no
document or whose items are no tokens is left out, and the list is the one of directories without
that file. Three things in a file are not expected and end the list: a scalar that is read in the
wrong place, a duration payload that breaks the check off, and a name that is a collection.

* `Spoils`, `spoils_iff`: the files that end a list.
* `list_eq`: **the list is what the files that load leave, unless a file spoils it.**
* `list_outcome`: **a list is the one without the files that are rejected, unless a file spoils
  it.**
-/

namespace RhythmTree

variable {files : FileTree} {l : Library} {p : Path} {e : StreamError}

/-! ### Files that spoil a list -/

namespace NamedStream

/-- A file with which no list comes to its end. -/
inductive Spoils (files : FileTree) (p : Path) : Prop
  /-- A scalar of a YAML file has a fault that nobody expects. -/
  | scalar {octets : List UInt8} {fault : Document.Yaml.Fault} (content : files.read p = .ok octets)
      (yaml : isJson p = false) (unread : Document.Yaml.read octets = .error fault)
      (odd : fault.isOrdinary = false)
  /-- A token holds a duration payload that breaks the check off. -/
  | payload {octets : List UInt8} {document name description d v : Document}
      {items : List Document} (content : files.read p = .ok octets)
      (holds : readDocument p octets = .ok document)
      (parts : parts? p document = some (items, name, description)) (mem : d ∈ items)
      (carries : Schema.Carries d v) (breaks : Duration.BreaksOff v)
  /-- The stream has a collection as its name. -/
  | name {s : NamedStream} (loads : load files p = .ok s) (collection : s.name.isCollection)

theorem load_eq_of_read {octets : List UInt8} (h : files.read p = .ok octets) :
    load files p = readDocument p octets >>= ofDocument p := by
  rw [load, h]
  rfl

theorem isFatal_ofFault (fault : Document.Yaml.Fault) :
    (ofFault p fault).isFatal = !fault.isOrdinary := by
  cases fault <;> rfl

theorem not_isFatal_of_read {failure : ReadFailure} (h : files.read p = .error failure)
    (he : load files p = .error e) : e.isFatal = false := by
  rw [load, h] at he
  cases failure <;> exact Except.error.inj he ▸ rfl

theorem not_isFatal_of_readJson {octets : List UInt8} (h : readJson p octets = .error e) :
    e.isFatal = false := by
  unfold readJson at h
  cases ht : Text.decode octets with
  | error error =>
    rw [ht] at h
    exact Except.error.inj h ▸ rfl
  | ok json =>
    simp only [ht, Except.mapError, bind, Except.bind] at h
    split at h
    · cases h
    · exact Except.error.inj h ▸ rfl

theorem exists_fault_of_readYaml {octets : List UInt8} (h : readYaml p octets = .error e) :
    ∃ fault, Document.Yaml.read octets = .error fault ∧ ofFault p fault = e := by
  unfold readYaml at h
  cases hr : Document.Yaml.read octets with
  | error fault =>
    rw [hr] at h
    exact ⟨fault, rfl, Except.error.inj h⟩
  | ok document =>
    rw [hr] at h
    cases h

/-- What an error that ends more than the reading of one file comes from. -/
theorem spoils_of_load (h : load files p = .error e) (he : e.isFatal) : Spoils files p := by
  cases hr : files.read p with
  | error failure =>
    rw [not_isFatal_of_read hr h] at he
    cases he
  | ok octets =>
    rw [load_eq_of_read hr] at h
    cases hd : readDocument p octets with
    | error e' =>
      obtain rfl : e' = e := by
        rw [hd] at h
        exact Except.error.inj h
      unfold readDocument at hd
      split at hd
      · rw [not_isFatal_of_readJson hd] at he
        cases he
      · next hj =>
        obtain ⟨fault, hf, rfl⟩ := exists_fault_of_readYaml hd
        rw [isFatal_ofFault, Bool.not_eq_true'] at he
        exact .scalar hr (Bool.not_eq_true _ ▸ hj) hf he
    | ok document =>
      rw [hd] at h
      change ofDocument p document = .error e at h
      unfold ofDocument at h
      split at h
      · rw [← Except.error.inj h] at he
        cases he
      · next items name description hp =>
        cases ht : Schema.tokens 0 items with
        | ok tokens =>
          rw [ht] at h
          cases h
        | invalid problems =>
          rw [ht] at h
          rw [← Except.error.inj h] at he
          cases he
        | aborted e' =>
          obtain ⟨d, hm, v, hc, hv⟩ := Schema.aborts_tokens_iff.mp ⟨e', ht⟩
          exact .payload hr hd hp hm hc hv

end NamedStream

namespace Library

open NamedStream (Spoils)

/-- The error with which a file ends every list. -/
def spoil? (files : FileTree) (p : Path) : Option StreamError :=
  match NamedStream.load files p with
  | .ok s => if s.name.isCollection then some (.collectionName s.name.typeName) else none
  | .error error => if error.isFatal then some error else none

theorem spoil?_of_load (h : NamedStream.load files p = .error e) (he : e.isFatal) :
    spoil? files p = some e := by
  rw [spoil?, h]
  exact if_pos he

/-- **The files that end a list.** -/
theorem spoils_iff : Spoils files p ↔ ∃ e, spoil? files p = some e := by
  constructor
  · intro h
    cases h with
    | @scalar octets fault content yaml unread odd =>
      refine ⟨NamedStream.ofFault p fault, spoil?_of_load ?_ ?_⟩
      · rw [NamedStream.load_eq_of_read content, NamedStream.readDocument, yaml,
          NamedStream.readYaml, unread]
        rfl
      · rw [NamedStream.isFatal_ofFault, odd]
        rfl
    | @payload _ _ _ _ _ _ items content holds parts mem carries breaks =>
      have ha : (Schema.tokens 0 items).Aborts :=
        Schema.aborts_tokens_iff.mpr ⟨_, mem, _, carries, breaks⟩
      obtain ⟨e, ht⟩ := ha
      refine ⟨.aborted e, spoil?_of_load ?_ rfl⟩
      rw [NamedStream.load_eq_of_read content, holds]
      simp only [bind, Except.bind, NamedStream.ofDocument, parts, ht]
    | @name s loads collection =>
      refine ⟨.collectionName s.name.typeName, ?_⟩
      rw [spoil?, loads]
      exact if_pos collection
  · rintro ⟨e, h⟩
    unfold spoil? at h
    split at h
    · next s hl =>
      split at h
      · next hc => exact .name hl hc
      · cases h
    · next e' hl =>
      split at h
      · next he => exact NamedStream.spoils_of_load hl he
      · cases h

/-! ### The list of the files that load -/

/-- The list of some entries, each in the place of the one before it that has its name. -/
def placeAll (ms : List Listing) : List Listing := ms.foldl (fun all m => m.place all) []

/-- The stream files of the two directories, in the order in which a list takes them. -/
def paths (files : FileTree) (l : Library) : List Path :=
  (l.shared :: l.project.toList).flatMap (streamFiles files)

/-- The entry that a file has in a list. -/
def listingOf? (files : FileTree) (p : Path) : Option Listing :=
  (NamedStream.load files p).toOption.map NamedStream.listing

theorem listFile_eq (files : FileTree) (p : Path) (entries : List Listing) :
    listFile files entries p =
      match spoil? files p with
      | some e => .error e
      | none => .ok ((listingOf? files p).elim entries (·.place entries)) := by
  unfold listFile spoil? listingOf?
  cases NamedStream.load files p with
  | ok s =>
    dsimp only
    split <;> rfl
  | error e =>
    dsimp only
    split <;> rfl

/-- A run over some files ends with the first one that spoils it, or it places the others. -/
theorem foldlM_listFile (files : FileTree) (paths : List Path) (entries : List Listing) :
    paths.foldlM (listFile files) entries =
      match paths.findSome? (spoil? files) with
      | some e => .error e
      | none =>
        .ok ((paths.filterMap (listingOf? files)).foldl (fun all m => m.place all) entries) := by
  induction paths generalizing entries with
  | nil => rfl
  | cons p rest ih =>
    rw [List.foldlM_cons, listFile_eq, List.findSome?_cons, List.filterMap_cons]
    cases hs : spoil? files p with
    | some e => rfl
    | none =>
      cases he : listingOf? files p with
      | none => exact ih entries
      | some m => exact ih (m.place entries)

/-- **The list is what the files that load leave, unless a file spoils it.** -/
theorem list_eq (files : FileTree) (l : Library) :
    l.list files =
      match (l.paths files).findSome? (spoil? files) with
      | some e => .error e
      | none => .ok (placeAll ((l.paths files).filterMap (listingOf? files))) :=
  foldlM_listFile files (l.paths files) []

/-! ### Files that are rejected -/

/-- Where the file at a path is, by the directory above it. -/
def site? (files : FileTree) (p : Path) : Option (List Text) :=
  match files.placeOf ⟨p.root, p.names.dropLast⟩ with
  | .ok here => some (here ++ [p.name])
  | .error _ => none

/-- A file that a list comes to and that does not load. A list comes to one file in two ways if the
two directories are one, and then neither way may load it. -/
def rejects (files : FileTree) (l : Library) (names : List Text) : Bool :=
  let ways := (l.paths files).filter fun p => site? files p = some names
  !ways.isEmpty && ways.all fun p => (listingOf? files p).isNone

/-- The tree without the files that are rejected. -/
def withoutRejected (files : FileTree) (l : Library) : FileTree :=
  files.keepFiles fun names => !l.rejects files names

/-- A path whose file is still there. -/
def isKept (files : FileTree) (l : Library) (p : Path) : Bool :=
  (site? files p).all fun names => ((l.withoutRejected files).entryAt? names).isSome

theorem suffix_child (directory : Path) (name : Text) :
    (directory.child name).suffix = (Path.splitSuffix name).2 := by
  rw [Path.suffix, Path.name, Path.child, List.getLast?_concat]
  rfl

theorem streamFiles_eq (files : FileTree) (directory : Path) :
    streamFiles files directory =
      ((files.list directory).map directory.child).filter fun p => suffixes.contains p.suffix :=
  rfl

theorem site?_child (files : FileTree) {directory : Path} {here : List Text} (name : Text)
    (h : files.placeOf directory = .ok here) :
    site? files (directory.child name) = some (here ++ [name]) := by
  simp only [site?, Path.child, Path.name, List.dropLast_concat, List.getLast?_concat]
  rw [show files.placeOf ⟨directory.root, directory.names⟩ = .ok here from h]
  rfl

/-- What is listed of a directory afterwards are the paths whose files are still there. -/
theorem streamFiles_withoutRejected (files : FileTree) (l : Library) (directory : Path) :
    streamFiles (l.withoutRejected files) directory =
      (streamFiles files directory).filter (l.isKept files) := by
  cases h : files.placeOf directory with
  | error failure =>
    have h' : (l.withoutRejected files).placeOf directory = .error failure :=
      (FileTree.placeOf_keepFiles files _ directory).trans h
    rw [streamFiles_eq, streamFiles_eq, FileTree.list, FileTree.list, h, h']
    rfl
  | ok here =>
    have hlist : (l.withoutRejected files).list directory = (files.list directory).filter
        fun name => ((l.withoutRejected files).entryAt? (here ++ [name])).isSome :=
      FileTree.list_keepFiles h
    have hkept : ∀ name, l.isKept files (directory.child name) =
        ((l.withoutRejected files).entryAt? (here ++ [name])).isSome := by
      intro name
      rw [isKept, site?_child files name h]
      rfl
    have hmap : ((l.withoutRejected files).list directory).map directory.child =
        ((files.list directory).map directory.child).filter (l.isKept files) := by
      rw [hlist, List.filter_map]
      exact congrArg _ (List.filter_congr fun name _ => (hkept name).symm)
    rw [streamFiles_eq, streamFiles_eq, hmap, List.filter_filter, List.filter_filter]
    exact List.filter_congr fun p _ => Bool.and_comm _ _

theorem paths_withoutRejected (files : FileTree) (l : Library) :
    l.paths (l.withoutRejected files) = (l.paths files).filter (l.isKept files) := by
  rw [paths, paths, List.filter_flatMap]
  exact List.flatMap_congr fun directory _ => streamFiles_withoutRejected files l directory

/-- What a list comes to stands in one of the two directories and has one of the suffixes. -/
theorem exists_of_mem_paths (h : p ∈ l.paths files) :
    ∃ directory ∈ l.shared :: l.project.toList, ∃ name ∈ files.list directory,
      p = directory.child name ∧ p.suffix ∈ suffixes := by
  obtain ⟨directory, hd, hp⟩ := List.mem_flatMap.mp h
  rw [streamFiles_eq, List.mem_filter, List.mem_map] at hp
  obtain ⟨⟨name, hn, rfl⟩, hs⟩ := hp
  exact ⟨directory, hd, name, hn, rfl, List.contains_iff_mem.mp hs⟩

/-- A file that is no longer there has not loaded. -/
theorem listingOf?_of_not_isKept (h : p ∈ l.paths files) (hk : ¬ l.isKept files p) :
    listingOf? files p = none := by
  obtain ⟨directory, -, name, hn, rfl, -⟩ := exists_of_mem_paths h
  obtain ⟨here, entry, hd, he, -⟩ := FileTree.exists_of_mem_list hn
  have hs := site?_child files name hd
  have hr : l.rejects files (here ++ [name]) := by
    rw [isKept, hs, Option.all_some, withoutRejected, FileTree.entryAt?_keepFiles, he] at hk
    -- the file stood there before, so only a rejection can have taken it away
    by_contra hr
    rw [Option.filter_some, if_pos (by simp [hr])] at hk
    exact hk rfl
  unfold rejects at hr
  rw [Bool.and_eq_true, List.all_eq_true] at hr
  have hw := hr.2 (directory.child name) (List.mem_filter.mpr ⟨h, decide_eq_true hs⟩)
  exact Option.isNone_iff_eq_none.mp hw

/-- The name of a stream file is none of the texts that have no such suffix. -/
theorem ne_of_suffix {name other : Text} (h : (Path.splitSuffix name).2 ∈ suffixes)
    (ho : (Path.splitSuffix other).2 ∉ suffixes) : name ≠ other := by
  rintro rfl
  exact ho h

/-- A file that is still there loads as before. -/
theorem load_of_isKept (h : p ∈ l.paths files) (hk : l.isKept files p) :
    NamedStream.load (l.withoutRejected files) p = NamedStream.load files p := by
  obtain ⟨directory, -, name, hn, rfl, hs⟩ := exists_of_mem_paths h
  obtain ⟨here, entry, hd, he, -⟩ := FileTree.exists_of_mem_list hn
  rw [suffix_child] at hs
  rw [isKept, site?_child files name hd, Option.all_some] at hk
  have hf : (l.withoutRejected files).find (directory.child name) =
      files.find (directory.child name) := by
    -- its suffix keeps the name from leading up, so the path leads to the kept file itself
    refine FileTree.find_keepFiles fun names hp => ?_
    rw [FileTree.placeOf_child hd hp (ne_of_suffix hs (by decide))]
    exact hk
  rw [NamedStream.load, NamedStream.load, FileTree.read, FileTree.read, hf]

theorem filterMap_withoutRejected (files : FileTree) (l : Library) :
    (l.paths (l.withoutRejected files)).filterMap (listingOf? (l.withoutRejected files)) =
      (l.paths files).filterMap (listingOf? files) := by
  rw [paths_withoutRejected, List.filterMap_filter]
  refine List.filterMap_congr fun p hp => ?_
  split
  · next hk => rw [listingOf?, listingOf?, load_of_isKept hp hk]
  · next hk => exact (listingOf?_of_not_isKept hp hk).symm

/-- **A list is the one without the files that are rejected, unless a file spoils it.** A file that
spoils it ends it with an error. -/
theorem list_outcome (files : FileTree) (l : Library) :
    ((∀ p ∈ l.paths files, ¬ Spoils files p) →
      ∃ entries, l.list files = .ok entries ∧ l.list (l.withoutRejected files) = .ok entries) ∧
    ((∃ p ∈ l.paths files, Spoils files p) → ∃ e, l.list files = .error e) := by
  have hnone : ∀ p ∈ l.paths files, ¬ Spoils files p → spoil? files p = none := by
    intro p _ hs
    rw [Option.eq_none_iff_forall_not_mem]
    exact fun e he => hs (spoils_iff.mpr ⟨e, he⟩)
  constructor
  · intro h
    have hfirst : (l.paths files).findSome? (spoil? files) = none :=
      List.findSome?_eq_none_iff.mpr fun p hp => hnone p hp (h p hp)
    have hfirst' : (l.paths (l.withoutRejected files)).findSome?
        (spoil? (l.withoutRejected files)) = none := by
      rw [paths_withoutRejected, List.findSome?_eq_none_iff]
      intro p hp
      obtain ⟨hp, hk⟩ := List.mem_filter.mp hp
      rw [spoil?, load_of_isKept hp hk]
      exact hnone p hp (h p hp)
    refine ⟨_, by rw [list_eq, hfirst], ?_⟩
    rw [list_eq, hfirst', filterMap_withoutRejected]
  · rintro ⟨p, hp, hs⟩
    obtain ⟨e, he⟩ := spoils_iff.mp hs
    have hfirst : ((l.paths files).findSome? (spoil? files)).isSome := by
      rw [List.findSome?_isSome_iff]
      exact ⟨p, hp, he ▸ rfl⟩
    obtain ⟨e', he'⟩ := Option.isSome_iff_exists.mp hfirst
    exact ⟨e', by rw [list_eq, he']⟩

/-- A shared directory and one of a project. -/
def twoShelves : Library := { shared := ⟨"", ["library"]⟩, project := some ⟨"", ["project"]⟩ }

/-- The tree of a library whose two directories hold one stream file each. -/
def onShelves (shared project : String) : FileTree :=
  let octets (text : String) := text.toList.map fun c => UInt8.ofNat c.toNat
  (FileTree.empty.write ⟨"", ["library", "first.json"]⟩ (octets shared)).write
    ⟨"", ["project", "second.json"]⟩ (octets project)

/-- A tree whose duration is nothing over one, beside a stream without tokens. -/
def spoiltShelves : FileTree :=
  onShelves
    "[\x7b\"kind\":\"duration\",\"identifier\":\"RootNodeDuration\",\"value\":[null,1]\x7d]" "[]"

/-- A number among the tokens is left out of the list, a pair that is no duration ends it. -/
theorem list_outcome_onShelves :
    ((∀ p ∈ twoShelves.paths (onShelves "[1]" "[]"), ¬ Spoils (onShelves "[1]" "[]") p) ∧
      twoShelves.rejects (onShelves "[1]" "[]") ["library", "first.json"] ∧
      ∃ entries, twoShelves.list (onShelves "[1]" "[]") = .ok entries ∧
        twoShelves.list (twoShelves.withoutRejected (onShelves "[1]" "[]")) = .ok entries) ∧
    (∃ p ∈ twoShelves.paths spoiltShelves, Spoils spoiltShelves p) ∧
      ∃ e, twoShelves.list spoiltShelves = .error e := by
  have hn : ∀ p ∈ twoShelves.paths (onShelves "[1]" "[]"), ¬ Spoils (onShelves "[1]" "[]") p := by
    have hs : ∀ p ∈ twoShelves.paths (onShelves "[1]" "[]"),
        spoil? (onShelves "[1]" "[]") p |>.isNone := by decide +kernel
    intro p hp h
    obtain ⟨e, he⟩ := spoils_iff.mp h
    have hp := hs p hp
    rw [he] at hp
    cases hp
  have hs : ∃ p ∈ twoShelves.paths spoiltShelves, Spoils spoiltShelves p := by
    have hs : ∃ p ∈ twoShelves.paths spoiltShelves, (spoil? spoiltShelves p).isSome := by
      decide +kernel
    obtain ⟨p, hp, h⟩ := hs
    exact ⟨p, hp, spoils_iff.mpr (Option.isSome_iff_exists.mp h)⟩
  exact ⟨⟨hn, by decide +kernel, (list_outcome (onShelves "[1]" "[]") twoShelves).1 hn⟩, hs,
    (list_outcome spoiltShelves twoShelves).2 hs⟩

/-- **There is a file that does not load and is not left out of the list.** -/
theorem not_forall_list_withoutRejected :
    ¬ ∀ (files : FileTree) (l : Library), ∃ entries, l.list files = .ok entries ∧
      l.list (l.withoutRejected files) = .ok entries := by
  intro h
  obtain ⟨entries, hl, -⟩ := h spoiltShelves twoShelves
  have he : (twoShelves.list spoiltShelves).isOk = false := by decide +kernel
  rw [hl] at he
  cases he

end Library

end RhythmTree
