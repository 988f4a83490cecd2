import Mathlib.Data.List.Induction
import RhythmTree.Proofs.Listing
import RhythmTree.Proofs.Numerals

/-!
# Listed and looked up

A list goes from files to names and keeps, of all files with one name, the last. A look-up goes from
a name to the files that may have it, and takes the first one that is there. The two meet where the
name written out is the name of the listed file without its suffix, and nothing stands at the paths
that come before it.

* `mem_list_iff`: **a list holds the last stream of every name.**
* `list_get_agree`: **what is listed is what a fresh library finds, by the name of the file.**
* `not_forall_list_get_agree`: **a name that the file does not have is listed and not found.**
-/

namespace RhythmTree

/-! ### Streams with one name -/

/-- A value that is not a number has no amount. -/
theorem Document.key?_of_isNan {d : Document} (h : d.isNan) : d.key? = none := by
  unfold Document.isNan at h
  split at h
  · rfl
  · cases h

namespace Listing

variable {a b c m : Listing} {entries : List Listing}

theorem sameName_iff : a.sameName b ↔
    (∃ key, a.name.key? = some key ∧ b.name.key? = some key) ∨
      (NamedStream.isJson a.path = NamedStream.isJson b.path ∧ a.name.isNan ∧ b.name.isNan) := by
  have hkey : a.name.sameKey b.name ↔
      ∃ key, a.name.key? = some key ∧ b.name.key? = some key := by
    rw [Document.sameKey, Option.any_eq_true]
    simp
  unfold sameName
  split
  · next h => simp [Document.sameName, hkey, h]
  · next h => simp [hkey, h]

theorem sameName_symm (h : a.sameName b) : b.sameName a := by
  rw [sameName_iff] at *
  rcases h with ⟨key, ha, hb⟩ | ⟨hj, ha, hb⟩
  · exact .inl ⟨key, hb, ha⟩
  · exact .inr ⟨hj.symm, hb, ha⟩

theorem sameName_trans (hab : a.sameName b) (hbc : b.sameName c) : a.sameName c := by
  rw [sameName_iff] at *
  -- what is not a number has no key, so the name in the middle links two names in one way only
  rcases hab with ⟨key, ha, hb⟩ | ⟨hj, ha, hb⟩
  · rcases hbc with ⟨key', hb', hc⟩ | ⟨-, hb', -⟩
    · obtain rfl := Option.some.inj (hb.symm.trans hb')
      exact .inl ⟨key, ha, hc⟩
    · rw [Document.key?_of_isNan hb'] at hb
      cases hb
  · rcases hbc with ⟨key', hb', -⟩ | ⟨hj', -, hc⟩
    · rw [Document.key?_of_isNan hb] at hb'
      cases hb'
    · exact .inr ⟨hj.trans hj', ha, hc⟩

/-! ### Entries that take the place of others -/

/-- No name stands in a list twice. -/
def Distinct (entries : List Listing) : Prop := entries.Pairwise fun a b => ¬ a.sameName b

theorem mem_of_mem_place (h : a ∈ m.place entries) : a = m ∨ a ∈ entries := by
  induction entries with
  | nil => exact .inl (List.mem_singleton.mp h)
  | cons first rest ih =>
    unfold place at h
    split at h
    · rcases List.mem_cons.mp h with h | h
      · exact .inl h
      · exact .inr (List.mem_cons_of_mem _ h)
    · rcases List.mem_cons.mp h with rfl | h
      · exact .inr List.mem_cons_self
      · exact (ih h).imp_right (List.mem_cons_of_mem _)

theorem Distinct.place (h : Distinct entries) (m : Listing) : Distinct (m.place entries) := by
  induction entries with
  | nil => exact List.pairwise_singleton _ _
  | cons first rest ih =>
    obtain ⟨hf, hr⟩ := List.pairwise_cons.mp h
    unfold Listing.place
    split
    · next hs =>
      refine List.pairwise_cons.mpr ⟨fun a ha hm => hf a ha ?_, hr⟩
      exact sameName_trans hs hm
    · next hs =>
      refine List.pairwise_cons.mpr ⟨fun a ha => ?_, ih hr⟩
      rcases mem_of_mem_place ha with rfl | ha
      · exact hs
      · exact hf a ha

/-- An entry replaces the one with its name and leaves all others. -/
theorem mem_place_iff (h : Distinct entries) :
    a ∈ m.place entries ↔ a = m ∨ (a ∈ entries ∧ ¬ a.sameName m) := by
  induction entries with
  | nil => simp [place]
  | cons first rest ih =>
    obtain ⟨hf, hr⟩ := List.pairwise_cons.mp h
    unfold place
    split
    · next hs =>
      have hrest : a ∈ rest → ¬ a.sameName m := fun ha hm =>
        hf a ha (sameName_trans hs (sameName_symm hm))
      constructor
      · intro ha
        rcases List.mem_cons.mp ha with ha | ha
        · exact .inl ha
        · exact .inr ⟨List.mem_cons_of_mem _ ha, hrest ha⟩
      · rintro (rfl | ⟨ha, hm⟩)
        · exact List.mem_cons_self
        · rcases List.mem_cons.mp ha with rfl | ha
          · exact absurd hs hm
          · exact List.mem_cons_of_mem _ ha
    · next hs =>
      rw [List.mem_cons, ih hr, List.mem_cons]
      constructor
      · rintro (rfl | ha | ⟨ha, hm⟩)
        · exact .inr ⟨.inl rfl, hs⟩
        · exact .inl ha
        · exact .inr ⟨.inr ha, hm⟩
      · rintro (ha | ⟨rfl | ha, hm⟩)
        · exact .inr (.inl ha)
        · exact .inl rfl
        · exact .inr (.inr ⟨ha, hm⟩)

end Listing

namespace Library

open Listing (Distinct)

variable {m : Listing}

theorem placeAll_concat (ms : List Listing) (m : Listing) :
    placeAll (ms ++ [m]) = m.place (placeAll ms) :=
  List.foldl_concat _ _ _ _

theorem distinct_placeAll (ms : List Listing) : Distinct (placeAll ms) := by
  induction ms using List.reverseRecOn with
  | nil => exact List.Pairwise.nil
  | append_singleton ms m ih =>
    rw [placeAll_concat]
    exact ih.place m

/-- The last entry of every name stays. -/
theorem mem_placeAll_iff {ms : List Listing} :
    m ∈ placeAll ms ↔ ∃ before after, ms = before ++ m :: after ∧ ∀ a ∈ after, ¬ m.sameName a := by
  -- from the back, as the entry that is placed last can replace all those before it
  induction ms using List.reverseRecOn with
  | nil => simp [placeAll]
  | append_singleton ms last ih =>
    rw [placeAll_concat, Listing.mem_place_iff (distinct_placeAll ms), ih]
    constructor
    · rintro (rfl | ⟨⟨before, after, rfl, ha⟩, hm⟩)
      · exact ⟨ms, [], rfl, by simp⟩
      · refine ⟨before, after ++ [last], by simp, fun a h => ?_⟩
        rcases List.mem_append.mp h with h | h
        · exact ha a h
        · exact List.mem_singleton.mp h ▸ hm
    · rintro ⟨before, after, he, ha⟩
      induction after using List.reverseRecOn with
      | nil =>
        have := List.append_inj_right' he rfl
        exact .inl (by simpa using this.symm)
      | append_singleton after a _ =>
        rw [← List.cons_append, ← List.append_assoc] at he
        obtain ⟨rfl, ha'⟩ := List.append_inj' he rfl
        obtain rfl := List.singleton_inj.mp ha'
        refine .inr ⟨⟨before, after, rfl, fun b hb => ha b (List.mem_append_left _ hb)⟩, ?_⟩
        exact ha last (List.mem_append_right _ (List.mem_singleton_self _))

end Library

/-! ### Names without slashes -/

namespace Path

/-- A name is what its suffix leaves of it, and the suffix. -/
theorem splitSuffix_append (name : Text) :
    (splitSuffix name).1 ++ (splitSuffix name).2 = name := by
  have hnone : name ++ (default : Text) = name := congrArg Text.mk (List.append_nil _)
  unfold splitSuffix
  dsimp only
  split
  · next back front h =>
    split
    · exact hnone
    · obtain ⟨c, hc, hs⟩ := Text.exists_of_splitAtFirst h
      obtain rfl := of_decide_eq_true hc
      have hn : name.symbols = front.reverse ++ Text.Symbol.char '.' :: back.reverse := by
        have := congrArg List.reverse hs
        simpa using this
      exact congrArg Text.mk hn.symm
  · exact hnone

/-- A text that can be the name of an entry of a directory. -/
structure IsName (name : Text) : Prop where
  slash : slash ∉ name.symbols
  empty : name ≠ Text.ofString ""
  dot : name ≠ Text.ofString "."

theorem ofText_of_isName {name : Text} (h : IsName name) : ofText name = ⟨"", [name]⟩ := by
  have hsplit : name.symbols.splitOn slash = [name.symbols] := List.splitOn_eq_singleton h.slash
  have hslashes : leadingSlashes name.symbols = "" := by
    have ht : name.symbols.takeWhile (· = slash) = [] := by
      cases hs : name.symbols with
      | nil => rfl
      | cons c rest =>
        have hc : c ≠ slash := fun he => h.slash (by rw [hs, he]; exact List.mem_cons_self)
        simp [hc]
    rw [leadingSlashes, ht]
    rfl
  rw [ofText, hsplit, hslashes]
  simp [h.empty, h.dot]

theorem below_of_isName (p : Path) {name : Text} (h : IsName name) :
    p.below name = p.child name := by
  rw [below, ofText_of_isName h]
  rfl

end Path

theorem not_mem_of_mem_splitOn {α : Type} [DecidableEq α] {a : α} {xs ys : List α}
    (h : ys ∈ xs.splitOn a) : a ∉ ys := by
  induction xs generalizing ys with
  | nil =>
    rw [List.splitOn_nil, List.mem_singleton] at h
    rw [h]
    exact List.not_mem_nil
  | cons x rest ih =>
    rw [List.splitOn_cons_eq_if_modifyHead] at h
    split at h
    · rcases List.mem_cons.mp h with rfl | h
      · exact List.not_mem_nil
      · exact ih h
    · next hx =>
      have hxa : a ≠ x := fun he => hx (beq_iff_eq.mpr he.symm)
      cases hr : rest.splitOn a with
      | nil => exact absurd hr (List.splitOn_ne_nil _ _)
      | cons z zs =>
        rw [hr] at h ih
        rcases List.mem_cons.mp h with rfl | h
        · rw [List.mem_cons, not_or]
          exact ⟨hxa, ih List.mem_cons_self⟩
        · exact ih (List.mem_cons_of_mem z h)

/-! ### Trees whose names hold no slash -/

/-- No name holds a slash. -/
def Path.Proper (p : Path) : Prop := ∀ name ∈ p.names, Path.slash ∉ name.symbols

theorem Path.proper_ofText (t : Text) : (Path.ofText t).Proper := by
  intro name hn
  obtain ⟨part, hp, rfl⟩ := List.mem_map.mp (List.mem_filter.mp hn).1
  exact not_mem_of_mem_splitOn hp

namespace FileTree

variable {t : FileTree} {p : Path}

/-- No name of an entry holds a slash. -/
def Proper (t : FileTree) : Prop :=
  ∀ names ∈ t.entries.keys, ∀ name ∈ names, Path.slash ∉ name.symbols

theorem proper_empty : empty.Proper := fun _ h => absurd h List.not_mem_nil

theorem Proper.addDirectories (h : t.Proper) {names : List Text}
    (hn : ∀ name ∈ names, Path.slash ∉ name.symbols) (n : Nat) :
    (t.addDirectories names n).Proper := by
  induction n with
  | zero => exact h
  | succ n ih =>
    intro key hk
    change key ∈ ((t.addDirectories names n).entries.putIfAbsent _ _).keys at hk
    rw [Table.keys_putIfAbsent] at hk
    split at hk
    · exact ih key hk
    · rcases List.mem_append.mp hk with hk | hk
      · exact ih key hk
      · rw [List.mem_singleton.mp hk]
        exact fun name hm => hn name (List.mem_of_mem_take hm)

/-- A file that is written at a proper path leaves a proper tree. -/
theorem Proper.write (h : t.Proper) (hp : p.Proper) (octets : List UInt8) :
    (t.write p octets).Proper := by
  have hd : (t.addDirectory ⟨p.root, p.names.dropLast⟩).Proper :=
    h.addDirectories (fun name hm => hp name ((List.dropLast_sublist _).subset hm)) _
  intro key hk
  change key ∈ ((t.addDirectory ⟨p.root, p.names.dropLast⟩).entries.put p.names _).keys at hk
  rw [Table.keys_put] at hk
  split at hk
  · exact hd key hk
  · rcases List.mem_append.mp hk with hk | hk
    · exact hd key hk
    · rw [List.mem_singleton.mp hk]
      exact hp

theorem Proper.remove (h : t.Proper) (p : Path) : (t.remove p).Proper := by
  intro key hk
  obtain ⟨entry, he, rfl⟩ := List.mem_map.mp hk
  exact h _ (List.mem_map_of_mem (List.mem_filter.mp he).1)

/-- The tree of some texts by their paths is proper. -/
theorem proper_ofTexts (texts : List (String × String)) : (ofTexts texts).Proper := by
  unfold ofTexts
  refine List.foldlRecOn texts _ proper_empty fun t h entry _ => ?_
  obtain ⟨path, content⟩ := entry
  exact h.write (Path.proper_ofText _) _

end FileTree

namespace Library

open NamedStream (load)

variable {files : FileTree} {l : Library} {p : Path} {s : NamedStream} {m : Listing}
  {entries : List Listing}

/-! ### What is in a list -/

theorem path_of_load (h : load files p = .ok s) : s.path = p := by
  cases hr : files.read p with
  | error failure =>
    rw [load, hr] at h
    cases failure <;> cases h
  | ok octets =>
    rw [NamedStream.load_eq_of_read hr] at h
    cases hd : NamedStream.readDocument p octets with
    | error e =>
      rw [hd] at h
      cases h
    | ok document =>
      rw [hd] at h
      change NamedStream.ofDocument p document = .ok s at h
      unfold NamedStream.ofDocument at h
      split at h
      · cases h
      · split at h
        · exact (Except.ok.inj h) ▸ rfl
        · cases h
        · cases h

theorem listingOf?_eq_some_iff :
    listingOf? files p = some m ↔ ∃ s, load files p = .ok s ∧ s.listing = m := by
  unfold listingOf?
  cases load files p with
  | ok s => simp [Except.toOption]
  | error e => simp [Except.toOption]

theorem entries_of_list (h : l.list files = .ok entries) :
    entries = placeAll ((l.paths files).filterMap (listingOf? files)) ∧
      ∀ p ∈ l.paths files, spoil? files p = none := by
  rw [list_eq] at h
  split at h
  · cases h
  · next hn => exact ⟨(Except.ok.inj h).symm, List.findSome?_eq_none_iff.mp hn⟩

theorem not_isCollection_of_load (hs : spoil? files p = none) (h : load files p = .ok s) :
    s.name.isCollection = false := by
  rw [spoil?, h] at hs
  simpa using hs

/-- **A list holds the last stream of every name.** -/
theorem mem_list_iff (h : l.list files = .ok entries) :
    m ∈ entries ↔ ∃ before p after s, l.paths files = before ++ p :: after ∧
      load files p = .ok s ∧ s.listing = m ∧
      ∀ q ∈ after, ∀ s', load files q = .ok s' → ¬ m.sameName s'.listing := by
  obtain ⟨rfl, -⟩ := entries_of_list h
  rw [mem_placeAll_iff]
  constructor
  · rintro ⟨before, after, hs, ha⟩
    obtain ⟨front, rest, hp, rfl, hrest⟩ := List.filterMap_eq_append_iff.mp hs
    obtain ⟨skipped, p, back, rfl, hskip, hentry, rfl⟩ := List.filterMap_eq_cons_iff.mp hrest
    obtain ⟨s, hload, hm⟩ := listingOf?_eq_some_iff.mp hentry
    refine ⟨front ++ skipped, p, back, s, by rw [hp, List.append_assoc], hload, hm, ?_⟩
    intro q hq s' hs'
    exact ha _ (List.mem_filterMap.mpr ⟨q, hq, listingOf?_eq_some_iff.mpr ⟨s', hs', rfl⟩⟩)
  · rintro ⟨before, p, after, s, hp, hload, hm, ha⟩
    have hentry : listingOf? files p = some m := listingOf?_eq_some_iff.mpr ⟨s, hload, hm⟩
    refine ⟨before.filterMap (listingOf? files), after.filterMap (listingOf? files), ?_, ?_⟩
    · rw [hp, List.filterMap_append, List.filterMap_cons_some hentry]
    · intro a hmem
      obtain ⟨q, hq, hqa⟩ := List.mem_filterMap.mp hmem
      obtain ⟨s', hs', rfl⟩ := listingOf?_eq_some_iff.mp hqa
      exact ha q hq s' hs'

/-! ### From a name to a listed file -/

theorem isName_of_suffix {name : Text} (hs : Path.slash ∉ name.symbols)
    (h : (Path.splitSuffix name).2 ∈ suffixes) : Path.IsName name :=
  ⟨hs, ne_of_suffix h (by decide), ne_of_suffix h (by decide)⟩

/-- A stream file is among the paths at which its name without the suffix is looked for. -/
theorem mem_candidates (hproper : files.Proper) (h : p ∈ l.paths files) {name : Document}
    (hn : name.unquoted = p.stem) : p ∈ l.candidates name := by
  obtain ⟨directory, hd, name', hl, rfl, hs⟩ := exists_of_mem_paths h
  obtain ⟨here, _, -, -, hk⟩ := FileTree.exists_of_mem_list hl
  have hslash : Path.slash ∉ name'.symbols := hproper _ hk name' (by simp)
  have hname : Path.IsName name' := isName_of_suffix hslash (suffix_child directory name' ▸ hs)
  have hwhole : name.unquoted ++ (directory.child name').suffix = name' := by
    rw [hn, suffix_child, Path.stem, Path.name, Path.child, List.getLast?_concat]
    exact Path.splitSuffix_append name'
  refine List.mem_flatMap.mpr ⟨directory, ?_, List.mem_map.mpr ⟨_, hs, ?_⟩⟩
  · rw [List.mem_append, List.mem_singleton]
    exact (List.mem_cons.mp hd).symm
  · rw [hwhole]
    exact Path.below_of_isName directory hname

/-- The first of some paths at which something stands. -/
theorem findM?_holds {paths : List Path} (hp : p ∈ paths) (there : files.contains? p = some true)
    (before : ∀ q ∈ paths.takeWhile (· ≠ p), files.contains? q = some false) :
    paths.findM? (holds files) = .ok (some p) := by
  induction paths with
  | nil => cases hp
  | cons q rest ih =>
    rw [List.findM?]
    by_cases hq : q = p
    · subst hq
      rw [holds, there]
      rfl
    · have hw : (q :: rest).takeWhile (· ≠ p) = q :: rest.takeWhile (· ≠ p) :=
        List.takeWhile_cons_of_pos (decide_eq_true hq)
      rw [hw] at before
      have hr := ih ((List.mem_cons.mp hp).resolve_left fun e => hq e.symm)
        fun q' h' => before q' (List.mem_cons_of_mem q h')
      rw [holds, before q List.mem_cons_self]
      exact hr

theorem contains?_of_load (h : load files p = .ok s) : files.contains? p = some true := by
  unfold load FileTree.read at h
  unfold FileTree.contains?
  cases hf : files.find p with
  | ok entry => rfl
  | error failure =>
    rw [hf] at h
    cases failure <;> cases h

/-- A fresh library finds the stream in the first file that is there. -/
theorem get_forget {name : Document} (hn : name.isCollection = false)
    (hf : l.fileOf? files name = .ok (some p)) (h : load files p = .ok s) :
    (l.forget.get files name).1 = .ok (some s) := by
  have hfound : name.key?.bind l.forget.found.get? = none := by
    cases name.key? <;> rfl
  have hstream : l.forget.streamOf? files name = .ok (some s) := by
    rw [streamOf?, show l.forget.fileOf? files name = _ from hf]
    simp only [bind, Except.bind, h, Except.map]
  rw [get, hn, hfound, hstream]
  rfl

/-- **What is listed is what a fresh library finds, by the name of the file.** No name is listed
twice, and every entry is the one of the stream in its file. Where a name written out is that of the
file without its suffix, and nothing stands at the paths that come before it, the library finds this
very stream. -/
theorem list_get_agree (hproper : files.Proper) (h : l.list files = .ok entries) :
    (entries.Pairwise fun a b => ¬ a.sameName b) ∧
    ∀ m ∈ entries, m.path ∈ l.paths files ∧ m.name.isCollection = false ∧
      ∃ s, load files m.path = .ok s ∧ s.listing = m ∧
        ∀ name : Document, name.isCollection = false → name.unquoted = m.path.stem →
          (∀ q ∈ (l.candidates name).takeWhile (· ≠ m.path), files.contains? q = some false) →
          (l.forget.get files name).1 = .ok (some s) := by
  obtain ⟨he, hnone⟩ := entries_of_list h
  refine ⟨he ▸ distinct_placeAll _, fun m hm => ?_⟩
  obtain ⟨before, p, after, s, hp, hload, hlisting, -⟩ := (mem_list_iff h).mp hm
  have hmem : p ∈ l.paths files := by
    rw [hp]
    exact List.mem_append_right _ List.mem_cons_self
  obtain rfl : m.path = p := by
    rw [← hlisting]
    exact path_of_load hload
  have hname : m.name.isCollection = false := by
    rw [← hlisting]
    exact not_isCollection_of_load (hnone _ hmem) hload
  refine ⟨hmem, hname, s, hload, hlisting, fun name hc hstem hbefore => ?_⟩
  refine get_forget hc ?_ hload
  exact findM?_holds (mem_candidates hproper hmem hstem) (contains?_of_load hload) hbefore

/-- A stream that goes by the name of its file, and one with a name of its own. -/
def namedShelves : FileTree := onShelves "[]" "\x7b\"name\":\"custom\",\"tokens\":[]\x7d"

/-- The list of these streams. -/
def namedListings : List Listing :=
  [⟨.text "first", .text "", 0, ⟨"", ["library", "first.json"]⟩⟩,
    ⟨.text "custom", .text "", 0, ⟨"", ["project", "second.json"]⟩⟩]

theorem proper_namedShelves : namedShelves.Proper := by
  unfold FileTree.Proper
  decide +kernel

theorem list_namedShelves : twoShelves.list namedShelves = .ok namedListings := by
  with_unfolding_all rfl

/-- Both streams are found by the names of their files. -/
theorem list_get_agree_namedShelves :
    namedShelves.Proper ∧ twoShelves.list namedShelves = .ok namedListings ∧
      (∃ s, (twoShelves.forget.get namedShelves (.text "first")).1 = .ok (some s) ∧
        s.listing = ⟨.text "first", .text "", 0, ⟨"", ["library", "first.json"]⟩⟩) ∧
      ∃ s, (twoShelves.forget.get namedShelves (.text "second")).1 = .ok (some s) ∧
        s.listing = ⟨.text "custom", .text "", 0, ⟨"", ["project", "second.json"]⟩⟩ := by
  have h := (list_get_agree proper_namedShelves list_namedShelves).2
  refine ⟨proper_namedShelves, list_namedShelves, ?_, ?_⟩
  · obtain ⟨-, -, s, -, hs, hget⟩ := h _ List.mem_cons_self
    exact ⟨s, hget (.text "first") rfl (by decide +kernel) (by decide +kernel), hs⟩
  · obtain ⟨-, -, s, -, hs, hget⟩ := h _ (List.mem_cons_of_mem _ List.mem_cons_self)
    exact ⟨s, hget (.text "second") rfl (by decide +kernel) (by decide +kernel), hs⟩

/-- **A name that the file does not have is listed and not found.** -/
theorem not_forall_list_get_agree :
    ¬ ∀ (files : FileTree) (l : Library) (entries : List Listing), files.Proper →
      l.list files = .ok entries → ∀ m ∈ entries, ∃ s,
        (l.forget.get files m.name).1 = .ok (some s) ∧ s.name = m.name ∧
          s.description = m.description ∧ s.tokens.length = m.count := by
  intro h
  obtain ⟨s, hs, -⟩ := h namedShelves twoShelves namedListings proper_namedShelves
    list_namedShelves _ (List.mem_cons_of_mem _ List.mem_cons_self)
  have hnone : (twoShelves.forget.get namedShelves (.text "custom")).1 = .ok none := rfl
  cases Except.ok.inj (hnone.symm.trans hs)

end Library

end RhythmTree
