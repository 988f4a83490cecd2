/-!
# Ordered tables

Finite maps that remember in which order their keys were first stored. Storing a value under a new
key puts the entry at the end; storing under a present key changes the value and leaves the entry
where it is. No key occurs twice.
-/

namespace RhythmTree

/-- The entries of a table after a value has been stored under a key. -/
def putEntry {α β : Type} [DecidableEq α] (key : α) (value : β) : List (α × β) → List (α × β)
  | [] => [(key, value)]
  | (k, v) :: rest => if k = key then (k, value) :: rest else (k, v) :: putEntry key value rest

/-- A key that is stored anew goes to the end, a present key stays in its place. -/
theorem map_fst_putEntry {α β : Type} [DecidableEq α] (key : α) (value : β)
    (entries : List (α × β)) :
    (putEntry key value entries).map Prod.fst =
      if key ∈ entries.map Prod.fst then entries.map Prod.fst
      else entries.map Prod.fst ++ [key] := by
  induction entries with
  | nil => simp [putEntry]
  | cons entry rest ih =>
    obtain ⟨k, v⟩ := entry
    by_cases h : k = key
    · simp [putEntry, h]
    · have h' : key ≠ k := fun e => h e.symm
      simp only [putEntry, if_neg h, List.map_cons, ih, List.mem_cons, h', false_or]
      split <;> simp

theorem nodup_putEntry {α β : Type} [DecidableEq α] (key : α) (value : β)
    {entries : List (α × β)} (h : (entries.map Prod.fst).Nodup) :
    ((putEntry key value entries).map Prod.fst).Nodup := by
  rw [map_fst_putEntry]
  split
  · exact h
  · next hk =>
    rw [List.nodup_append]
    refine ⟨h, by simp, ?_⟩
    intro a ha b hb
    rw [List.mem_singleton] at hb
    exact fun e => hk (hb ▸ e ▸ ha)

/-- Keys with their values, in the order in which the keys were first stored. -/
structure Table (α β : Type) where
  /-- The keys and values in order. -/
  entries : List (α × β) := []
  /-- No key occurs twice. -/
  nodup : (entries.map Prod.fst).Nodup := by simp
  deriving DecidableEq

namespace Table

variable {α β : Type}

/-- The table without entries. -/
def empty : Table α β := {}

instance : Inhabited (Table α β) := ⟨empty⟩

/-- The keys in the order in which they were first stored. -/
def keys (t : Table α β) : List α := t.entries.map Prod.fst

/-- The value stored under a key. -/
def get? [DecidableEq α] (t : Table α β) (key : α) : Option β := t.entries.lookup key

/-- Stores a value under a key. -/
def put [DecidableEq α] (t : Table α β) (key : α) (value : β) : Table α β :=
  ⟨putEntry key value t.entries, nodup_putEntry key value t.nodup⟩

/-- Stores a value under a key unless the key is present. -/
def putIfAbsent [DecidableEq α] (t : Table α β) (key : α) (value : β) : Table α β :=
  if key ∈ t.keys then t else t.put key value

/-- The table without the entry of a key. -/
def erase [DecidableEq α] (t : Table α β) (key : α) : Table α β :=
  ⟨t.entries.filter fun entry => entry.1 ≠ key, (List.filter_sublist.map Prod.fst).nodup t.nodup⟩

/-- Stores pairs one after another. -/
def ofList [DecidableEq α] (pairs : List (α × β)) : Table α β :=
  pairs.foldl (fun t pair => t.put pair.1 pair.2) empty

@[simp] theorem keys_empty : (empty : Table α β).keys = [] := rfl

theorem keys_put [DecidableEq α] (t : Table α β) (key : α) (value : β) :
    (t.put key value).keys = if key ∈ t.keys then t.keys else t.keys ++ [key] :=
  map_fst_putEntry key value t.entries

end Table

end RhythmTree
