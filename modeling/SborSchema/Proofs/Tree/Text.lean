/-
# A tree is read back from its text

The JSON value of a tree is read as the tree, with its members as written or in
name order. The text of that value is read as the tree too, unless it nests
deeper than the reader goes. A node is an object and its children stand in an
array of it, which is two levels; an entry of a map is an object of its own,
which makes three. So the bound on the text is none on the height of the tree.

Key definitions: `Tree.nesting`.
Key theorems: `Tree.nesting_toJson`, `Tree.read_back`.
-/
import SborSchema.Proofs.Json.ReadBack
import SborSchema.Proofs.Tree.Json

namespace SborSchema

namespace Tree

mutual

/-- How many arrays and objects lie in one another in the text of a tree. -/
def nesting : Tree → Nat
  | leaf .. => 1
  | array _ _ elements => 2 + nestingList elements
  | map _ _ _ entries => if entries.isEmpty then 2 else 3 + nestingEntries entries
  | tuple _ fields => 2 + nestingList fields
  | enum _ _ _ fields => 2 + nestingList fields

/-- The greatest nesting of a tree of a list, 0 for none. -/
def nestingList : List Tree → Nat
  | [] => 0
  | t :: ts => max t.nesting (nestingList ts)

/-- The greatest nesting of a key or value of a map, 0 for none. -/
def nestingEntries : List (Tree × Tree) → Nat
  | [] => 0
  | (k, v) :: es => max (max k.nesting v.nesting) (nestingEntries es)

end

/-! ### The value of a tree -/

section Members

variable (l : Labels) (k : Kind) {own : List (String × Json)}

/-- Labels and kind are texts, so they add no level to the members of a node. -/
theorem nestingMembers_head : Json.nestingMembers (headMembers l k ++ own) =
    Json.nestingMembers own := by
  obtain ⟨_ | _, _ | _⟩ := l <;>
    simp [headMembers, Labels.members, Json.optional, Json.nestingMembers, Json.nesting]

/-- Labels and kind are texts, so the members of a node hold no number if its own hold none. -/
theorem numberFree_head (hown : ∀ m ∈ own, m.2.NumberFree) :
    (Json.object (headMembers l k ++ own)).NumberFree := by
  refine .object (List.forall_mem_append.mpr ⟨?_, hown⟩)
  obtain ⟨_ | _, _ | _⟩ := l <;>
    simp [headMembers, Labels.members, Json.optional, Json.NumberFree.string]

end Members

theorem nestingMembers_variant (variantId : String) (variantName : Option String)
    (own : List (String × Json)) :
    Json.nestingMembers (variantMembers variantId variantName ++ own) =
      Json.nestingMembers own := by
  cases variantName <;>
    simp [variantMembers, Json.optional, Json.nestingMembers, Json.nesting]

mutual

/-- **The value of a tree nests as deep as the tree says.** -/
theorem nesting_toJson : ∀ t : Tree, t.toJson.nesting = t.nesting
  | leaf l content => by
    rw [toJson, Json.nesting, nestingMembers_head, nesting]
    cases content <;> rfl
  | array l elementKind elements => by
    rw [toJson, Json.nesting, nestingMembers_head, nesting]
    simp only [Json.nestingMembers, Json.nesting, nestingItems_jsonList elements]
    omega
  | map l keyKind valueKind entries => by
    rw [toJson, Json.nesting, nestingMembers_head, nesting]
    simp only [Json.nestingMembers, Json.nesting, nestingItems_jsonEntries entries]
    split <;> omega
  | tuple l fields => by
    rw [toJson, Json.nesting, nestingMembers_head, nesting]
    simp only [Json.nestingMembers, Json.nesting, nestingItems_jsonList fields]
    omega
  | enum l variantId variantName fields => by
    rw [toJson, Json.nesting, List.append_assoc, nestingMembers_head, nestingMembers_variant,
      nesting]
    simp only [Json.nestingMembers, Json.nesting, nestingItems_jsonList fields]
    omega

theorem nestingItems_jsonList : ∀ ts : List Tree,
    Json.nestingItems (jsonList ts) = nestingList ts
  | [] => rfl
  | t :: ts => by
    rw [jsonList, Json.nestingItems, nestingList, nesting_toJson t, nestingItems_jsonList ts]

theorem nestingItems_jsonEntries : ∀ es : List (Tree × Tree),
    Json.nestingItems (jsonEntries es) = if es.isEmpty then 0 else 1 + nestingEntries es
  | [] => rfl
  | (k, v) :: es => by
    have ih := nestingItems_jsonEntries es
    rw [jsonEntries, Json.nestingItems, ih, List.isEmpty_cons, if_neg Bool.false_ne_true,
      nestingEntries]
    simp only [Json.nesting, Json.nestingMembers, nesting_toJson k, nesting_toJson v]
    cases es with
    | nil =>
      simp only [List.isEmpty_nil, if_true, nestingEntries]
      omega
    | cons e es =>
      simp only [List.isEmpty_cons, Bool.false_eq_true, if_false]
      omega

end

mutual

/-- No number stands in the value of a tree. -/
theorem numberFree_toJson : ∀ t : Tree, t.toJson.NumberFree
  | leaf l content => by
    rw [toJson]
    refine numberFree_head l content.kind ?_
    cases content <;> simp [Leaf.members, Json.NumberFree.string, Json.NumberFree.bool]
  | array l elementKind elements => by
    rw [toJson]
    refine numberFree_head l .array ?_
    simp [Json.NumberFree.string, numberFree_jsonList elements]
  | map l keyKind valueKind entries => by
    rw [toJson]
    refine numberFree_head l .map ?_
    simp [Json.NumberFree.string, numberFree_jsonEntries entries]
  | tuple l fields => by
    rw [toJson]
    refine numberFree_head l .tuple ?_
    simp [numberFree_jsonList fields]
  | enum l variantId variantName fields => by
    rw [toJson, List.append_assoc]
    refine numberFree_head l .enum ?_
    cases variantName <;> simp [variantMembers, Json.optional, Json.NumberFree.string,
      numberFree_jsonList fields]

theorem numberFree_jsonList : ∀ ts : List Tree, (Json.array (jsonList ts)).NumberFree
  | [] => .array (by simp [jsonList])
  | t :: ts => by
    cases numberFree_jsonList ts with
    | array hitems =>
    rw [jsonList]
    exact .array (List.forall_mem_cons.mpr ⟨numberFree_toJson t, hitems⟩)

theorem numberFree_jsonEntries : ∀ es : List (Tree × Tree),
    (Json.array (jsonEntries es)).NumberFree
  | [] => .array (by simp [jsonEntries])
  | (k, v) :: es => by
    cases numberFree_jsonEntries es with
    | array hitems =>
    rw [jsonEntries]
    refine .array (List.forall_mem_cons.mpr ⟨.object ?_, hitems⟩)
    simp [numberFree_toJson k, numberFree_toJson v]

end

/-- **A tree is read back from its JSON value**, with the members as written or in name order,
**and from its compact text exactly when that nests at most 127 arrays and objects**; a text
that nests deeper is refused. What the text nests is counted on the tree. -/
theorem read_back (t : Tree) :
    ofJson? t.toJson = some t ∧ ofJson? t.toJson.sorted = some t ∧
      ofText? t.toJson.compact =
        (if Json.nestingOfText t.toJson.compact ≤ 127 then some t else none) ∧
      Json.nestingOfText t.toJson.compact = t.nesting := by
  have hvalue : ofJson? t.toJson = some t := ofJson?_arranged Json.arranges_id t
  refine ⟨hvalue, ofJson?_arranged Json.arranges_sorted t, ?_, ?_⟩
  · rw [ofText?, Json.nestingLimit, Json.ofTextWithin?_compact (numberFree_toJson t)]
    split
    · exact hvalue
    · rfl
  · rw [Json.nestingOfText_compact (numberFree_toJson t), nesting_toJson]

/-- An entry of a map stands one level deeper than an element of an array. -/
example (t : Tree) : (map {} .bool .bool [(t, t)]).nesting = 3 + t.nesting ∧
    (array {} .bool [t]).nesting = 2 + t.nesting := by simp [nesting, nestingEntries, nestingList]

end Tree
end SborSchema
