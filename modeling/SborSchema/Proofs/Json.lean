/-
# JSON values in another arrangement

The order of the members of an object carries no meaning. An arrangement may
change it: it keeps scalars and the order of items, and leaves under each name
what stood there, arranged too. Putting every object in name order is one.

Key definitions: `Json.Arranges`.
Key theorems: `Json.sameContent_iff`, `Json.get?_sortedMembers`, `Json.Arranges.get?_eq`, `Json.arranges_id`,
`Json.arranges_sorted`.
-/
import SborSchema.Json
import SborSchema.Proofs.NameOrder

namespace SborSchema

namespace Json

/-! ### Equality -/

mutual

theorem beq_iff : ∀ a b : Json, beq a b = true ↔ a = b
  | .null, b | .bool _, b | .number _, b | .string _, b => by
    cases b <;> simp [beq]
  | .array items, b => by
    cases b with
    | array items' => rw [beq, beqItems_iff items items', array.injEq]
    | _ => simp [beq]
  | .object members, b => by
    cases b with
    | object members' => rw [beq, beqMembers_iff members members', object.injEq]
    | _ => simp [beq]

theorem beqItems_iff : ∀ items items' : List Json, beqItems items items' = true ↔ items = items'
  | [], items' => by cases items' <;> simp [beqItems]
  | a :: items, [] => by simp [beqItems]
  | a :: items, b :: items' => by
    rw [beqItems, Bool.and_eq_true, beq_iff a b, beqItems_iff items items', List.cons.injEq]

theorem beqMembers_iff : ∀ members members' : List (String × Json),
    beqMembers members members' = true ↔ members = members'
  | [], members' => by cases members' <;> simp [beqMembers]
  | (n, a) :: members, [] => by simp [beqMembers]
  | (n, a) :: members, (n', b) :: members' => by
    rw [beqMembers, Bool.and_eq_true, Bool.and_eq_true, beq_iff_eq, beq_iff a b,
      beqMembers_iff members members', List.cons.injEq, Prod.mk.injEq]

end

instance : LawfulBEq Json where
  eq_of_beq h := (beq_iff _ _).mp h
  rfl := (beq_iff _ _).mpr rfl

/-- Two values have the same content if they are the same in name order. -/
theorem sameContent_iff (a b : Json) : a.sameContent b = true ↔ a.sorted = b.sorted := by
  rw [sameContent, beq_iff_eq]

/-! ### Name order -/

/-- Under distinct names, the last member of a name is the first. -/
theorem last?_eq_get? {members : List (String × Json)} (h : (members.map (·.1)).Nodup)
    (name : String) : last? members name = NameOrder.get? name members := by
  have hreverse : (members.reverse.map (·.1)).Nodup := by
    rw [List.map_reverse]
    exact List.pairwise_reverse.mpr (h.imp Ne.symm)
  cases hm : NameOrder.get? name members with
  | some value =>
    obtain ⟨e, he, rfl⟩ := Option.map_eq_some_iff.mp hm
    obtain rfl : e.1 = name := by simpa using List.find?_some he
    exact NameOrder.get?_of_mem hreverse (List.mem_reverse.mpr (List.mem_of_find?_eq_some he))
  | none =>
    have hnone : ∀ e ∈ members, ¬(e.1 == name) = true :=
      List.find?_eq_none.mp (Option.map_eq_none_iff.mp hm)
    exact Option.map_eq_none_iff.mpr
      (List.find?_eq_none.mpr fun e he => hnone e (List.mem_reverse.mp he))

/-- **Under each name stands the last member of this name, in name order too.** -/
theorem get?_sortedMembers (name : String) : ∀ members done : List (String × Json),
    NameOrder.get? name (sortedMembers members done) =
      ((last? members name).map sorted).or (NameOrder.get? name done)
  | [], done => by
    simp only [sortedMembers]
    rfl
  | (n, value) :: members, done => by
    have hlast : last? ((n, value) :: members) name =
        (last? members name).or (if n = name then some value else none) := by
      simp only [last?, List.reverse_cons, List.find?_append]
      cases members.reverse.find? (·.1 == name) with
      | some e => rfl
      | none => by_cases hn : n = name <;> simp [hn]
    rw [sortedMembers, get?_sortedMembers name members, NameOrder.get?_put, hlast]
    cases last? members name with
    | some other => rfl
    | none => by_cases hn : n = name <;> simp [hn]

theorem ascending_sortedMembers : ∀ {members done : List (String × Json)},
    NameOrder.Ascending done → NameOrder.Ascending (sortedMembers members done)
  | [], _, h => by
    simp only [sortedMembers]
    exact h
  | (_, _) :: members, _, h => by
    simp only [sortedMembers]
    exact ascending_sortedMembers h.update

/-- Putting objects in name order makes nothing a null. -/
theorem eq_null_of_sorted {j : Json} (h : j.sorted = .null) : j = .null := by
  cases j with
  | null => rfl
  | bool | number | string | array | object => simp [sorted] at h

theorem sortedItems_eq_map : ∀ items : List Json, sortedItems items = items.map sorted
  | [] => by simp only [sortedItems, List.map_nil]
  | item :: items => by simp only [sortedItems, sortedItems_eq_map items, List.map_cons]

/-- The function keeps scalars and the order of items, and leaves under each name of an
object of distinct names what stood there, rearranged too. -/
structure Arranges (g : Json → Json) : Prop where
  null : g .null = .null
  bool (b : Bool) : g (.bool b) = .bool b
  number (n : Number) : g (.number n) = .number n
  string (s : String) : g (.string s) = .string s
  array (items : List Json) : g (.array items) = .array (items.map g)
  object (members : List (String × Json)) : ∃ members', g (.object members) = .object members' ∧
    ((members.map (·.1)).Nodup → (members'.map (·.1)).Nodup ∧
      ∀ name, NameOrder.get? name members' = (NameOrder.get? name members).map g)

namespace Arranges

variable {g : Json → Json}

/-- Objects that are the same once arranged hold the same under each name. -/
theorem get?_eq (hg : Arranges g) {members members' : List (String × Json)}
    (hnodup : (members.map (·.1)).Nodup) (hnodup' : (members'.map (·.1)).Nodup)
    (h : g (.object members) = g (.object members')) (name : String) :
    (NameOrder.get? name members).map g = (NameOrder.get? name members').map g := by
  obtain ⟨ms, hms, hkeeps⟩ := hg.object members
  obtain ⟨ms', hms', hkeeps'⟩ := hg.object members'
  rw [hms, hms'] at h
  rw [← (hkeeps hnodup).2, ← (hkeeps' hnodup').2, Json.object.inj h]

theorem object_ne_null (hg : Arranges g) (members : List (String × Json)) :
    g (.object members) ≠ .null := by
  obtain ⟨ms, hms, -⟩ := hg.object members
  rw [hms]
  nofun

end Arranges

/-- A value as it stands is arranged. -/
theorem arranges_id : Arranges id where
  null := rfl
  bool _ := rfl
  number _ := rfl
  string _ := rfl
  array items := by rw [List.map_id]; rfl
  object members := ⟨members, rfl, fun h => ⟨h, fun name => by rw [Option.map_id]; rfl⟩⟩

/-- **Putting each object in name order is an arrangement.** -/
theorem arranges_sorted : Arranges sorted where
  null := by simp only [sorted]
  bool _ := by simp only [sorted]
  number _ := by simp only [sorted]
  string _ := by simp only [sorted]
  array items := by rw [sorted, sortedItems_eq_map]
  object members := by
    refine ⟨sortedMembers members [], by rw [sorted], fun h =>
      ⟨(ascending_sortedMembers .nil).nodup, fun name => ?_⟩⟩
    rw [get?_sortedMembers, last?_eq_get? h, NameOrder.get?_nil, Option.or_none]

end Json
end SborSchema
