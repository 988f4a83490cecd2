import Mathlib.Data.List.Lex
import RhythmTree.Files.FileTree
import RhythmTree.Proofs.Tables

/-!
# Trees that lose files

A tree that loses some of its files and keeps all of its directories still leads every path to the
same place. What stands there is the same unless it is one of the lost files, and the list of a
directory is the old one without them.

* `find_keepFiles`: **what stands at a path is the same if it is still there.**
* `list_keepFiles`: **a directory lists what it has listed, without the files that are lost.**
* `exists_of_mem_list`, `placeOf_child`: what a directory lists stands in it.
-/

namespace RhythmTree

/-! ### Texts in order -/

namespace Text

theorem Symbol.code_injective {a b : Symbol} (h : a.code = b.code) : a = b := by
  have outside : ∀ (c : Char) (n : Fin 2048), c.toNat ≠ 0xD800 + n := by
    intro c n hc
    have hv : c.toNat < 0xD800 ∨ 0xDFFF < c.toNat ∧ c.toNat < 0x110000 := c.valid
    omega
  cases a with
  | char c =>
    cases b with
    | char d => exact congrArg _ (Char.toNat_inj.mp h)
    | half n => exact absurd h (outside c n)
  | half n =>
    cases b with
    | char d => exact absurd h.symm (outside d n)
    | half m =>
      have hn : n.val = m.val := Nat.add_left_cancel h
      exact congrArg _ (Fin.ext hn)

/-- The code points of a text. -/
def codes (t : Text) : List Nat := t.symbols.map Symbol.code

theorem codes_injective {s t : Text} (h : s.codes = t.codes) : s = t := by
  have hs : s.symbols = t.symbols :=
    (List.map_inj_right fun _ _ => Symbol.code_injective).mp h
  cases s
  exact congrArg mk hs

theorem not_isBefore {s t : Text} : (!t.isBefore s) = true ↔ s.codes ≤ t.codes := by
  have hlex : t.isBefore s = true ↔ List.Lex (· < ·) t.codes s.codes := List.lex_eq_true_iff_lt
  rw [Bool.not_eq_true', ← Bool.not_eq_true, hlex]
  exact not_lt (a := t.codes) (b := s.codes)

/-- Sorting and leaving texts out can be done in either order. -/
theorem filter_mergeSort (ts : List Text) (p : Text → Bool) :
    (ts.mergeSort fun a b => !b.isBefore a).filter p =
      (ts.filter p).mergeSort fun a b => !b.isBefore a := by
  have sorted : ∀ l : List Text,
      (l.mergeSort fun a b => !b.isBefore a).Pairwise fun a b => a.codes ≤ b.codes := by
    intro l
    refine (List.pairwise_mergeSort ?_ ?_ l).imp fun h => not_isBefore.mp h
    · intro a b c hab hbc
      rw [not_isBefore] at *
      exact le_trans hab hbc
    · intro a b
      rw [Bool.or_eq_true, not_isBefore, not_isBefore]
      exact le_total _ _
  refine List.Perm.eq_of_pairwise ?_ ((sorted ts).filter p) (sorted _) ?_
  · intro a b _ _ hab hba
    exact codes_injective (le_antisymm hab hba)
  · exact ((List.mergeSort_perm ts _).filter p).trans (List.mergeSort_perm _ _).symm

end Text

/-! ### Tables that lose entries -/

namespace Table

variable {α β : Type} [DecidableEq α] {t : Table α β} {key : α} {value : β}

theorem get?_eq_some_iff : t.get? key = some value ↔ (key, value) ∈ t.entries :=
  lookup_eq_some_iff t.nodup

/-- The entries of a table that have a property. -/
def filter (t : Table α β) (p : α × β → Bool) : Table α β :=
  ⟨t.entries.filter p, (List.filter_sublist.map Prod.fst).nodup t.nodup⟩

theorem get?_filter (t : Table α β) (p : α × β → Bool) (key : α) :
    (t.filter p).get? key = (t.get? key).filter fun value => p (key, value) := by
  refine Option.ext fun value => ?_
  rw [get?_eq_some_iff, Option.filter_eq_some_iff, get?_eq_some_iff]
  exact List.mem_filter

theorem keys_filter (t : Table α β) (p : α × β → Bool) :
    (t.filter p).keys = t.keys.filter fun key => ((t.filter p).get? key).isSome := by
  have hget : ∀ entry ∈ t.entries, p entry = ((t.filter p).get? entry.1).isSome := by
    intro entry he
    rw [get?_filter, get?_eq_some_iff.mpr he]
    cases hp : p entry <;> simp [hp]
  rw [keys, keys, List.filter_map]
  exact congrArg _ (List.filter_congr hget)

end Table

/-- The path of what has a name in the directory at a path. -/
def Path.child (p : Path) (name : Text) : Path := ⟨p.root, p.names ++ [name]⟩

/-! ### Trees that lose files -/

namespace FileTree

variable {t : FileTree} {keep : List Text → Bool} {p : Path} {here names : List Text}

/-- The tree with all directories and those of its files that are kept. -/
def keepFiles (t : FileTree) (keep : List Text → Bool) : FileTree :=
  ⟨t.entries.filter fun entry => entry.2 = .directory || keep entry.1⟩

theorem entryAt?_keepFiles (t : FileTree) (keep : List Text → Bool) (names : List Text) :
    (t.keepFiles keep).entryAt? names =
      (t.entryAt? names).filter fun entry => entry = .directory || keep names := by
  unfold entryAt?
  split
  · rfl
  · exact Table.get?_filter _ _ _

theorem entryAt?_keepFiles_of_isSome (h : ((t.keepFiles keep).entryAt? names).isSome) :
    (t.keepFiles keep).entryAt? names = t.entryAt? names := by
  obtain ⟨entry, he⟩ := Option.isSome_iff_exists.mp h
  have hf := he
  rw [entryAt?_keepFiles, Option.filter_eq_some_iff] at hf
  rw [he, hf.1]

theorem directory_keepFiles :
    (t.keepFiles keep).entryAt? names = some .directory ↔ t.entryAt? names = some .directory := by
  rw [entryAt?_keepFiles, Option.filter_eq_some_iff]
  simp

theorem walk_keepFiles (here names : List Text) :
    (t.keepFiles keep).walk here names = t.walk here names := by
  induction names generalizing here with
  | nil => rfl
  | cons name rest ih =>
    unfold walk
    by_cases h : t.entryAt? here = some .directory
    · simp only [h, directory_keepFiles.mpr h, ih]
    · have h' : (t.keepFiles keep).entryAt? here ≠ some .directory := fun e =>
        h (directory_keepFiles.mp e)
      split
      · next e => exact absurd e h'
      · rfl

theorem placeOf_keepFiles (t : FileTree) (keep : List Text → Bool) (p : Path) :
    (t.keepFiles keep).placeOf p = t.placeOf p := by
  simp only [placeOf, walk_keepFiles]

/-- **What stands at a path is the same if it is still there.** -/
theorem find_keepFiles
    (h : ∀ names, t.placeOf p = .ok names → ((t.keepFiles keep).entryAt? names).isSome) :
    (t.keepFiles keep).find p = t.find p := by
  unfold find
  rw [placeOf_keepFiles]
  cases hp : t.placeOf p with
  | error failure => rfl
  | ok names => simp only [entryAt?_keepFiles_of_isSome (h names hp)]

/-- Entries of one directory that are left out are left out of the names in it. -/
theorem filterMap_getLast?_filter (kept : List Text → Bool) :
    ∀ {inside : List (List Text)},
      (∀ names ∈ inside, ∃ name, names = here ++ [name]) →
      (inside.filter kept).filterMap List.getLast? =
        (inside.filterMap List.getLast?).filter fun name => kept (here ++ [name]) := by
  intro inside
  induction inside with
  | nil => intro _; rfl
  | cons names rest ih =>
    intro h
    obtain ⟨name, rfl⟩ := h names List.mem_cons_self
    have hr := ih fun names hm => h names (List.mem_cons_of_mem _ hm)
    have hg : (here ++ [name]).getLast? = some name := List.getLast?_concat
    rw [List.filter_cons, List.filterMap_cons_some hg, List.filter_cons]
    split
    · rw [List.filterMap_cons_some hg, hr]
    · exact hr

/-- The places of what stands in a directory. -/
def inside (t : FileTree) (here : List Text) : List (List Text) :=
  t.entries.keys.filter fun names => !names.isEmpty && names.dropLast = here

theorem exists_eq_concat_of_mem_inside (h : names ∈ t.inside here) :
    ∃ name, names = here ++ [name] := by
  obtain ⟨-, hn⟩ := List.mem_filter.mp h
  rw [Bool.and_eq_true, Bool.not_eq_true', List.isEmpty_eq_false_iff, decide_eq_true_iff] at hn
  obtain ⟨hne, rfl⟩ := hn
  exact ⟨names.getLast hne, (List.dropLast_concat_getLast hne).symm⟩

theorem inside_keepFiles :
    (t.keepFiles keep).inside here =
      (t.inside here).filter fun names => ((t.keepFiles keep).entryAt? names).isSome := by
  unfold inside
  rw [keepFiles, Table.keys_filter, List.filter_filter, List.filter_filter]
  refine List.filter_congr fun names _ => ?_
  rw [entryAt?]
  cases names.isEmpty with
  | true => simp
  | false => exact Bool.and_comm _ _

theorem list_eq_of_placeOf (h : t.placeOf p = .ok here) :
    t.list p = ((t.inside here).filterMap List.getLast?).mergeSort fun a b => !b.isBefore a := by
  rw [list, h]
  rfl

/-- **A directory lists what it has listed, without the files that are lost.** -/
theorem list_keepFiles (h : t.placeOf p = .ok here) :
    (t.keepFiles keep).list p = (t.list p).filter fun name =>
      ((t.keepFiles keep).entryAt? (here ++ [name])).isSome := by
  have hkept := filterMap_getLast?_filter
    (fun names => ((t.keepFiles keep).entryAt? names).isSome)
    fun names (hn : names ∈ t.inside here) => exists_eq_concat_of_mem_inside hn
  have h' : (t.keepFiles keep).placeOf p = .ok here := (placeOf_keepFiles t keep p).trans h
  rw [list_eq_of_placeOf h, list_eq_of_placeOf h', inside_keepFiles, hkept, Text.filter_mergeSort]

/-! ### What a directory lists -/

/-- What a directory lists stands in it. -/
theorem exists_of_mem_list {name : Text} (h : name ∈ t.list p) :
    ∃ here entry, t.placeOf p = .ok here ∧ t.entryAt? (here ++ [name]) = some entry ∧
      here ++ [name] ∈ t.entries.keys := by
  cases hp : t.placeOf p with
  | error failure =>
    rw [list, hp] at h
    cases h
  | ok here =>
    rw [list_eq_of_placeOf hp, List.mem_mergeSort, List.mem_filterMap] at h
    obtain ⟨names, hn, hl⟩ := h
    obtain ⟨name', rfl⟩ := exists_eq_concat_of_mem_inside hn
    obtain rfl : name' = name := by simpa using hl
    have hk : here ++ [name'] ∈ t.entries.keys := (List.mem_filter.mp hn).1
    obtain ⟨entry, he, hfst⟩ := List.mem_map.mp hk
    refine ⟨here, entry.2, rfl, ?_, hk⟩
    have hget : t.entries.get? (here ++ [name']) = some entry.2 :=
      Table.get?_eq_some_iff.mpr (hfst ▸ he)
    rw [entryAt?, hget]
    simp

theorem walk_append (here names more : List Text) :
    t.walk here (names ++ more) = t.walk here names >>= fun place => t.walk place more := by
  induction names generalizing here with
  | nil => rfl
  | cons name rest ih =>
    simp only [List.cons_append, walk]
    split
    · split
      · rfl
      · split
        · exact ih _
        · split
          · rfl
          · exact ih _
    · rfl

theorem walk_of_placeOf (h : t.placeOf p = .ok names) : t.walk [] p.names = .ok names := by
  unfold placeOf at h
  split at h
  · cases h
  · split at h
    · cases h
    · split at h
      · cases h
      · exact h

/-- Where the path of what has a name in a directory leads, if it leads anywhere. -/
theorem placeOf_child {name : Text} (h : t.placeOf p = .ok here)
    (hc : t.placeOf (p.child name) = .ok names) (hn : name ≠ Text.ofString "..") :
    names = here ++ [name] := by
  have hw := walk_of_placeOf hc
  change t.walk [] (p.names ++ [name]) = .ok names at hw
  rw [walk_append, walk_of_placeOf h] at hw
  simp only [bind, Except.bind, walk] at hw
  split at hw
  · split at hw
    · cases hw
    · exact (Except.ok.inj hw).symm
  · cases hw

end FileTree

end RhythmTree
