/-
# Tables

A table keeps values under keys, each key once. Nothing is said by the order of
its entries: whoever needs one sorts the keys.

Key definitions: `Table`, `Table.get?`, `Table.alter`, `Table.keys`.
Key theorems: `Table.get?_alter`, `Table.mem_keys_iff`.
-/

namespace SborSchema

/-- Values under keys. -/
structure Table (κ α : Type) where
  entries : List (κ × α)
  keys_nodup : (entries.map (·.1)).Nodup

namespace Table

variable {κ α : Type}

/-- The table without entries. -/
def empty : Table κ α := ⟨[], List.nodup_nil⟩

/-- The number of keys. -/
def size (t : Table κ α) : Nat := t.entries.length

/-- The keys, in no particular order. -/
def keys (t : Table κ α) : List κ := t.entries.map (·.1)

variable [DecidableEq κ]

/-- What stands under a key. -/
def get? (t : Table κ α) (key : κ) : Option α := t.entries.lookup key

/-- Puts under a key what `change` makes of what stands there, if anything does. -/
def alterEntries (key : κ) (change : Option α → α) : List (κ × α) → List (κ × α)
  | [] => [(key, change none)]
  | (k, a) :: rest =>
    if k = key then (k, change (some a)) :: rest else (k, a) :: alterEntries key change rest

theorem mem_map_alterEntries {key k : κ} {change : Option α → α} (entries : List (κ × α)) :
    k ∈ (alterEntries key change entries).map (·.1) ↔ k = key ∨ k ∈ entries.map (·.1) := by
  induction entries with
  | nil => simp [alterEntries]
  | cons e rest ih =>
    obtain ⟨k', a⟩ := e
    rw [alterEntries]
    by_cases hk : k' = key
    · rw [if_pos hk, hk]
      simp
    · rw [if_neg hk, List.map_cons, List.mem_cons, ih, List.map_cons, List.mem_cons]
      exact or_left_comm

theorem nodup_alterEntries {key : κ} {change : Option α → α} {entries : List (κ × α)}
    (h : (entries.map (·.1)).Nodup) : ((alterEntries key change entries).map (·.1)).Nodup := by
  induction entries with
  | nil => simp [alterEntries]
  | cons e rest ih =>
    obtain ⟨k, a⟩ := e
    obtain ⟨hk, hrest⟩ := List.nodup_cons.mp h
    rw [alterEntries]
    by_cases hkey : k = key
    · rw [if_pos hkey]
      exact List.nodup_cons.mpr ⟨hk, hrest⟩
    · rw [if_neg hkey]
      refine List.nodup_cons.mpr ⟨fun hmem => ?_, ih hrest⟩
      exact ((mem_map_alterEntries rest).mp hmem).elim hkey hk

/-- Puts under a key what `change` makes of what stands there, if anything does. -/
def alter (t : Table κ α) (key : κ) (change : Option α → α) : Table κ α :=
  ⟨alterEntries key change t.entries, nodup_alterEntries t.keys_nodup⟩

theorem get?_empty (key : κ) : (empty : Table κ α).get? key = none := rfl

theorem lookup_cons (key k : κ) (a : α) (rest : List (κ × α)) :
    ((k, a) :: rest).lookup key = if key = k then some a else rest.lookup key := by
  rw [List.lookup_cons]
  by_cases hk : key = k
  · rw [if_pos hk, beq_iff_eq.mpr hk]
  · rw [if_neg hk, beq_false_of_ne hk]

theorem lookup_alterEntries (key k : κ) (change : Option α → α) (entries : List (κ × α)) :
    (alterEntries key change entries).lookup k =
      if k = key then some (change (entries.lookup key)) else entries.lookup k := by
  induction entries with
  | nil =>
    rw [alterEntries, lookup_cons]
    rfl
  | cons e rest ih =>
    obtain ⟨k', a⟩ := e
    rw [alterEntries]
    by_cases hk' : k' = key
    · rw [if_pos hk', lookup_cons, lookup_cons, lookup_cons, hk', if_pos rfl]
      by_cases hk : k = key
      · rw [if_pos hk, if_pos hk]
      · rw [if_neg hk, if_neg hk, if_neg hk]
    · rw [if_neg hk', lookup_cons, lookup_cons, lookup_cons, ih, if_neg (Ne.symm hk')]
      by_cases hk : k = k'
      · rw [if_pos hk, if_pos hk, if_neg (hk ▸ hk')]
      · rw [if_neg hk, if_neg hk]

/-- Under the key stands what was made of it, and nothing else changes. -/
theorem get?_alter (t : Table κ α) (key k : κ) (change : Option α → α) :
    (t.alter key change).get? k = if k = key then some (change (t.get? key)) else t.get? k :=
  lookup_alterEntries key k change t.entries

/-- The keys are those that something stands under. -/
theorem mem_keys_iff (t : Table κ α) (key : κ) : key ∈ t.keys ↔ (t.get? key).isSome := by
  simp [keys, get?, List.lookup_isSome_iff]

end Table
end SborSchema
