import Mathlib.Data.List.Induction
import RhythmTree.Table

/-!
# What a table keeps

Pairs that are stored one after another leave a table in which every key stands where it was first
stored and has the value that was stored last.

* `lookup_eq_some_iff`, `lookup_eq_of_perm`: an entry is found wherever it stands.
* `get?_put`, `get?_putIfAbsent`: what is found in a table after a change.
* `keys_put_eq_eraseDups`, `keys_putIfAbsent_eq_eraseDups`: **keys stand in the order in which they
  were first stored.**
* `Table.Collects`, `collects_ofList`: **a table collects the pairs that were stored in it.**
-/

namespace RhythmTree

theorem eraseDups_concat {α : Type} [DecidableEq α] (as : List α) (a : α) :
    (as ++ [a]).eraseDups = if a ∈ as then as.eraseDups else as.eraseDups ++ [a] := by
  rw [List.eraseDups_append]
  by_cases h : a ∈ as
  · have hr : [a].removeAll as = [] := by simp [List.removeAll, h]
    rw [if_pos h, hr, List.eraseDups_nil, List.append_nil]
  · have hr : [a].removeAll as = [a] := by simp [List.removeAll, h]
    rw [if_neg h, hr, List.eraseDups_cons]
    rfl

theorem lookup_cons_eq_ite {α β : Type} [DecidableEq α] (key k : α) (value : β)
    (entries : List (α × β)) :
    ((key, value) :: entries).lookup k = if k = key then some value else entries.lookup k := by
  rw [List.lookup_cons]
  by_cases h : k = key
  · rw [if_pos h, beq_iff_eq.mpr h]
  · rw [if_neg h, beq_false_of_ne h]

theorem lookup_eq_some_iff {α β : Type} [DecidableEq α] {key : α} {value : β} :
    ∀ {entries : List (α × β)}, (entries.map Prod.fst).Nodup →
      (entries.lookup key = some value ↔ (key, value) ∈ entries) := by
  intro entries
  induction entries with
  | nil => intro _; simp
  | cons entry rest ih =>
    intro h
    obtain ⟨k, v⟩ := entry
    rw [List.map_cons, List.nodup_cons] at h
    rw [lookup_cons_eq_ite, List.mem_cons, Prod.mk.injEq]
    by_cases hk : key = k
    · subst hk
      have hr : (key, value) ∉ rest := fun he =>
        h.1 (List.mem_map.mpr ⟨(key, value), he, rfl⟩)
      simp [hr, eq_comm]
    · simp [hk, ih h.2]

/-- The order of entries does not count for looking a key up. -/
theorem lookup_eq_of_perm {α β : Type} [DecidableEq α] {fs gs : List (α × β)} (h : fs.Perm gs)
    (hn : (fs.map Prod.fst).Nodup) (key : α) : fs.lookup key = gs.lookup key := by
  refine Option.ext fun value => ?_
  rw [lookup_eq_some_iff hn, lookup_eq_some_iff ((h.map Prod.fst).nodup_iff.mp hn), h.mem_iff]

theorem lookup_putEntry {α β : Type} [DecidableEq α] (key k : α) (value : β)
    (entries : List (α × β)) :
    (putEntry key value entries).lookup k =
      if k = key then some value else entries.lookup k := by
  induction entries with
  | nil => exact lookup_cons_eq_ite key k value []
  | cons entry rest ih =>
    obtain ⟨k', v⟩ := entry
    by_cases h' : k' = key
    · subst h'
      rw [putEntry, if_pos rfl, lookup_cons_eq_ite, lookup_cons_eq_ite]
      split <;> rfl
    · rw [putEntry, if_neg h', lookup_cons_eq_ite, lookup_cons_eq_ite, ih]
      by_cases h : k = key
      · have hne : k ≠ k' := fun e => h' (e.symm.trans h)
        rw [if_pos h, if_neg hne, if_pos h]
      · rw [if_neg h, if_neg h]

namespace Table

variable {α β : Type} [DecidableEq α] {table : Table α β}

theorem get?_put (table : Table α β) (key k : α) (value : β) :
    (table.put key value).get? k = if k = key then some value else table.get? k :=
  lookup_putEntry key k value table.entries

theorem get?_eq_none {key : α} (h : key ∉ table.keys) : table.get? key = none := by
  rw [get?, List.lookup_eq_none_iff]
  intro entry he
  rw [bne_iff_ne]
  rintro rfl
  exact h (List.mem_map_of_mem he)

theorem get?_putIfAbsent (table : Table α β) (key k : α) (value : β) :
    (table.putIfAbsent key value).get? k =
      if k = key ∧ key ∉ table.keys then some value else table.get? k := by
  unfold putIfAbsent
  by_cases h : key ∈ table.keys
  · simp [h]
  · simp [h, get?_put]

theorem keys_putIfAbsent (table : Table α β) (key : α) (value : β) :
    (table.putIfAbsent key value).keys =
      if key ∈ table.keys then table.keys else table.keys ++ [key] := by
  unfold putIfAbsent
  split
  · rfl
  · next h => rw [keys_put, if_neg h]

theorem entries_put_of_not_mem {key : α} (h : key ∉ table.keys) (value : β) :
    (table.put key value).entries = table.entries ++ [(key, value)] := by
  have hp : ∀ entries : List (α × β), key ∉ entries.map Prod.fst →
      putEntry key value entries = entries ++ [(key, value)] := by
    intro entries hk
    induction entries with
    | nil => rfl
    | cons entry rest ih =>
      rw [List.map_cons, List.mem_cons, not_or] at hk
      rw [putEntry, if_neg fun e => hk.1 e.symm, ih hk.2, List.cons_append]
  exact hp table.entries h

/-- A key that is present keeps its entry, and so do all others. -/
theorem entries_isPrefix_putIfAbsent (table : Table α β) (key : α) (value : β) :
    table.entries <+: (table.putIfAbsent key value).entries := by
  unfold putIfAbsent
  split
  · exact List.prefix_rfl
  · next h =>
    rw [entries_put_of_not_mem h]
    exact List.prefix_append _ _

/-! ### Keys in the order in which they were first stored -/

variable {keys : List α}

theorem keys_put_eq_eraseDups (h : table.keys = keys.eraseDups) (key : α) (value : β) :
    (table.put key value).keys = (keys ++ [key]).eraseDups := by
  rw [keys_put, eraseDups_concat, h]
  simp only [List.mem_eraseDups]

theorem keys_putIfAbsent_eq_eraseDups (h : table.keys = keys.eraseDups) (key : α) (value : β) :
    (table.putIfAbsent key value).keys = (keys ++ [key]).eraseDups := by
  rw [keys_putIfAbsent, eraseDups_concat, h]
  simp only [List.mem_eraseDups]

/-- The keys are those of some pairs in the order in which they first occur, and every key has the
value of its last pair. -/
structure Collects (table : Table α β) (pairs : List (α × β)) : Prop where
  keys : table.keys = (pairs.map Prod.fst).eraseDups
  get? : ∀ key, table.get? key = (pairs.filter fun pair => pair.1 = key).getLast?.map Prod.snd

theorem collects_empty : (empty : Table α β).Collects [] := ⟨rfl, fun _ => rfl⟩

theorem Collects.put {pairs : List (α × β)} (h : table.Collects pairs) (key : α) (value : β) :
    (table.put key value).Collects (pairs ++ [(key, value)]) := by
  refine ⟨?_, fun k => ?_⟩
  · rw [List.map_append]
    exact keys_put_eq_eraseDups h.keys key value
  · rw [get?_put, List.filter_append, List.getLast?_append]
    by_cases hk : k = key
    · subst hk
      simp
    · have hne : key ≠ k := fun e => hk e.symm
      simp [hk, hne, h.get?]

/-- **A table collects the pairs that were stored in it.** -/
theorem collects_ofList (pairs : List (α × β)) : (ofList pairs).Collects pairs := by
  induction pairs using List.reverseRecOn with
  | nil => exact collects_empty
  | append_singleton pairs pair ih =>
    rw [ofList, List.foldl_append]
    exact ih.put pair.1 pair.2

end Table

end RhythmTree
