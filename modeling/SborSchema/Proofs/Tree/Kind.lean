/-
# What a node of a kind looks like

The kind of a node decides which constructor made it, and which its content if
it is a leaf. Whoever reads a node behind the gate knows its kind, and so the
form it has.

Key theorems: `KindSet.eq_of_contains_single`, `KindSet.contains_integers`,
`Tree.exists_integer`, `Tree.exists_bytes`, `Tree.exists_array`, `Tree.exists_map`,
`Tree.exists_tuple`, `Tree.exists_enum`.
-/
import SborSchema.KindSet
import SborSchema.Tree

namespace SborSchema

theorem KindSet.eq_of_contains_single {k l : Kind} (h : (single k).contains l = true) : l = k := by
  simpa using h

theorem KindSet.single_ne_empty (k : Kind) : single k ≠ empty := by
  intro h
  have hk := congrArg (contains · k) h
  simp at hk

/-- The integer kinds are the kinds of integer nodes. -/
theorem KindSet.contains_integers {k : Kind} :
    integers.contains k = true ↔ ∃ kind, k = .integer kind := by
  rw [integers, contains_ofList, decide_eq_true_iff, List.mem_map]
  constructor
  · rintro ⟨kind, -, rfl⟩
    exact ⟨kind, rfl⟩
  · rintro ⟨kind, rfl⟩
    exact ⟨kind, kind.mem_all, rfl⟩

namespace Tree

variable {t : Tree}

theorem exists_integer {kind : IntegerKind} (h : t.kind = .integer kind) :
    ∃ l text, t = .leaf l (.integer kind text) := by
  cases t with
  | leaf l content =>
    cases content with
    | integer k text =>
      obtain rfl : k = kind := Kind.integer.inj h
      exact ⟨l, text, rfl⟩
    | _ => cases h
  | _ => cases h

theorem exists_bytes (h : t.kind = .bytes) : ∃ l k hex, t = .leaf l (.bytes k hex) := by
  cases t with
  | leaf l content =>
    cases content with
    | bytes k hex => exact ⟨l, k, hex, rfl⟩
    | _ => cases h
  | _ => cases h

theorem exists_array (h : t.kind = .array) : ∃ l k elements, t = .array l k elements := by
  cases t with
  | array l k elements => exact ⟨l, k, elements, rfl⟩
  | leaf l content => cases content <;> cases h
  | _ => cases h

theorem exists_map (h : t.kind = .map) : ∃ l k k' entries, t = .map l k k' entries := by
  cases t with
  | map l k k' entries => exact ⟨l, k, k', entries, rfl⟩
  | leaf l content => cases content <;> cases h
  | _ => cases h

theorem exists_tuple (h : t.kind = .tuple) : ∃ l fields, t = .tuple l fields := by
  cases t with
  | tuple l fields => exact ⟨l, fields, rfl⟩
  | leaf l content => cases content <;> cases h
  | _ => cases h

theorem exists_enum (h : t.kind = .enum) : ∃ l id name fields, t = .enum l id name fields := by
  cases t with
  | enum l id name fields => exact ⟨l, id, name, fields, rfl⟩
  | leaf l content => cases content <;> cases h
  | _ => cases h

end Tree
end SborSchema
