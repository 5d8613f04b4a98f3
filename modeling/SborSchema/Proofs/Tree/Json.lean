/-
# A written tree is read back

A node is written as an object: first its labels and its kind, then the members
of that kind. Reading looks each of them up by its name, so the tree is read
back whatever the order of the members (`Tree.ofJson?_arranged`), and different
trees differ as JSON in any arrangement of it.

Key definitions: `Tree.headNames`.
Key theorems: `Tree.exists_members`, `Tree.ofJson?_arranged`, `Tree.arranged_injective`.
-/
import SborSchema.Proofs.Json
import SborSchema.Tree.Json

namespace SborSchema
namespace Tree

variable {g : Json → Json} {members : List (String × Json)}

/-! ### The members of a node -/

/-- The names of the members that every node has or may have. -/
def headNames : List String := ["type_name", "field_name", "kind"]

theorem member?_eq_get? (name : String) : ∀ members : List (String × Json),
    member? name members = NameOrder.get? name members
  | [] => rfl
  | (_, _) :: rest => by rw [member?, NameOrder.get?_cons, member?_eq_get? name rest]

/-- No name is repeated among distinct names. -/
theorem unrepeated_of_nodup (h : (members.map (·.1)).Nodup) (names : List String) :
    unrepeated names members = true := by
  refine List.all_eq_true.mpr fun name _ => decide_eq_true ?_
  have hcount : (members.map (·.1)).count name ≤ 1 := List.nodup_iff_count.mp h name
  rwa [List.count, List.countP_map] at hcount

theorem nodup_headMembers (l : Labels) (k : Kind) : ((headMembers l k).map (·.1)).Nodup := by
  obtain ⟨_ | _, _ | _⟩ := l <;> simp [headMembers, Labels.members, Json.optional]

theorem mem_headNames {l : Labels} {k : Kind} {name : String}
    (h : name ∈ (headMembers l k).map (·.1)) : name ∈ headNames := by
  obtain ⟨_ | _, _ | _⟩ := l <;>
    simp [headMembers, Labels.members, Json.optional, headNames] at h ⊢ <;> tauto

/-- However the members of a node are arranged, its kind and its labels are read from
them, no name is repeated, and its own members are found by their names. -/
theorem exists_members (hg : Json.Arranges g) (l : Labels) (k : Kind)
    (own : List (String × Json)) (hnodup : (own.map (·.1)).Nodup)
    (hown : ∀ name ∈ own.map (·.1), name ∉ headNames) :
    ∃ members, g (.object (headMembers l k ++ own)) = .object members ∧
      nodeKindAt members = some k ∧ labelsOf members = some l ∧
      (∀ names, unrepeated names members = true) ∧
      ∀ name ∉ headNames, member? name members = (NameOrder.get? name own).map g := by
  have hnames : ((headMembers l k ++ own).map (·.1)).Nodup := by
    rw [List.map_append, List.nodup_append]
    refine ⟨nodup_headMembers l k, hnodup, ?_⟩
    rintro name hhead _ hname rfl
    exact hown name hname (mem_headNames hhead)
  obtain ⟨members, hmembers, hkeeps⟩ := hg.object (headMembers l k ++ own)
  obtain ⟨hdistinct, hget⟩ := hkeeps hnames
  have hfind : ∀ name, member? name members =
      ((NameOrder.get? name (headMembers l k)).or (NameOrder.get? name own)).map g := by
    intro name
    rw [member?_eq_get?, hget, NameOrder.get?_append]
  have hown' : ∀ name ∈ headNames, NameOrder.get? name own = none := fun name hname =>
    Option.not_isSome_iff_eq_none.mp fun h => hown name (NameOrder.get?_isSome.mp h) hname
  refine ⟨members, hmembers, ?_, ?_, unrepeated_of_nodup hdistinct, fun name hname => ?_⟩
  · have hkind : NameOrder.get? "kind" (headMembers l k) = some (.string k.name) := by
      obtain ⟨_ | _, _ | _⟩ := l <;> rfl
    simp only [nodeKindAt, hfind, hkind, Option.some_or, Option.map_some, hg.string,
      Kind.ofName?_name]
  · have htype : NameOrder.get? "type_name" (headMembers l k) = l.typeName.map .string := by
      obtain ⟨_ | _, _ | _⟩ := l <;> rfl
    have hfield : NameOrder.get? "field_name" (headMembers l k) = l.fieldName.map .string := by
      obtain ⟨_ | _, _ | _⟩ := l <;> rfl
    have htext : ∀ s : Option String, ∀ name, member? name members = (s.map .string).map g →
        optionalTextAt name members = some s := by
      rintro (_ | s) name h <;> simp [optionalTextAt, h, hg.string]
    have htype' := htext l.typeName "type_name" (by
      rw [hfind, htype, hown' _ (by decide), Option.or_none])
    have hfield' := htext l.fieldName "field_name" (by
      rw [hfind, hfield, hown' _ (by decide), Option.or_none])
    simp only [labelsOf, htype', hfield', Option.bind_eq_bind, Option.bind_some]
    rfl
  · have hhead : NameOrder.get? name (headMembers l k) = none :=
      Option.not_isSome_iff_eq_none.mp fun h => hname (mem_headNames (NameOrder.get?_isSome.mp h))
    rw [hfind, hhead, Option.none_or]

/-! ### Reading back -/

theorem textAt_eq (hg : Json.Arranges g) {name s : String}
    (h : member? name members = some (g (.string s))) : textAt name members = some s := by
  simp only [textAt, h, hg.string]

theorem kindAt_eq (hg : Json.Arranges g) {name : String} {k : Kind}
    (h : member? name members = some (g (.string k.name))) : kindAt name members = some k := by
  simp only [kindAt, h, hg.string, Option.bind_some, Json.emptyCaseName?, Json.caseName?,
    Kind.ofName?_name]

theorem treesAt_eq (name : String) : ∀ members : List (String × Json),
    treesAt name members = (member? name members).bind treesOf
  | [] => by simp only [treesAt, member?, Option.bind_none]
  | (n, v) :: rest => by
    by_cases h : n = name <;> simp [treesAt, member?, h, treesAt_eq name rest]

theorem entriesAt_eq (name : String) : ∀ members : List (String × Json),
    entriesAt name members = (member? name members).bind entriesOf
  | [] => by simp only [entriesAt, member?, Option.bind_none]
  | (n, v) :: rest => by
    by_cases h : n = name <;> simp [entriesAt, member?, h, entriesAt_eq name rest]

theorem treeAt_eq (name : String) : ∀ members : List (String × Json),
    treeAt name members = (member? name members).bind ofJson?
  | [] => by simp only [treeAt, member?, Option.bind_none]
  | (n, v) :: rest => by
    by_cases h : n = name <;> simp [treeAt, member?, h, treeAt_eq name rest]

/-- The content of a leaf is read back from its members. -/
theorem leafOf_eq (hg : Json.Arranges g) (content : Leaf)
    (h : ∀ name ∉ headNames,
      member? name members = (NameOrder.get? name content.members).map g) :
    leafOf content.kind members = some content := by
  cases content with
  | bool b =>
    have hvalue : member? "value" members = some (g (.bool b)) := h _ (by decide)
    simp only [leafOf, Leaf.kind, hvalue, hg.bool]
  | bytes elementKind hex =>
    have hkind : kindAt "element_kind" members = some elementKind :=
      kindAt_eq hg (h _ (by decide))
    have hhex : textAt "hex" members = some hex := textAt_eq hg (h _ (by decide))
    simp only [leafOf, Leaf.kind, hkind, hhex]
    rfl
  | integer _ s | string s | decimal s | preciseDecimal s | reference s | own s
    | nonFungibleLocalId s =>
    have hvalue : textAt "value" members = some s := textAt_eq hg (h _ (by decide))
    simp only [leafOf, Leaf.kind, hvalue, Option.map_some]

mutual

/-- **A tree is read back from its JSON value, however its members are arranged.** -/
theorem ofJson?_arranged (hg : Json.Arranges g) : ∀ t : Tree, ofJson? (g t.toJson) = some t
  | leaf l content => by
    obtain ⟨members, hmembers, hkind, hlabels, hunrepeated, hmember⟩ :=
      exists_members hg l content.kind content.members
        (by cases content <;> simp [Leaf.members])
        (by cases content <;> simp [Leaf.members, headNames])
    have hcontent := leafOf_eq hg content hmember
    rw [toJson, hmembers, ofJson?]
    simp only [hkind, hlabels, hunrepeated, Option.bind_eq_bind, Option.bind_some, Bool.not_true,
      Bool.false_eq_true, if_false]
    cases content <;> simp only [Leaf.kind] at hcontent ⊢ <;> rw [hcontent] <;> rfl
  | array l elementKind elements => by
    obtain ⟨members, hmembers, hkind, hlabels, hunrepeated, hmember⟩ :=
      exists_members hg l .array
        [("element_kind", .string elementKind.name), ("elements", .array (jsonList elements))]
        (by simp) (by simp [headNames])
    have helementKind : kindAt "element_kind" members = some elementKind :=
      kindAt_eq hg (hmember _ (by decide))
    have helements : treesAt "elements" members = some elements := by
      have h : member? "elements" members = some (g (.array (jsonList elements))) :=
        hmember _ (by decide)
      rw [treesAt_eq, h, hg.array, Option.bind_some, treesOf, trees_arranged hg elements]
    rw [toJson, hmembers, ofJson?]
    simp only [hkind, hlabels, hunrepeated, helementKind, helements, Option.bind_eq_bind,
      Option.bind_some, Bool.not_true, Bool.false_eq_true, if_false]
    rfl
  | map l keyKind valueKind es => by
    obtain ⟨members, hmembers, hkind, hlabels, hunrepeated, hmember⟩ :=
      exists_members hg l .map
        [("key_kind", .string keyKind.name), ("value_kind", .string valueKind.name),
          ("entries", .array (jsonEntries es))]
        (by simp) (by simp [headNames])
    have hkeyKind : kindAt "key_kind" members = some keyKind :=
      kindAt_eq hg (hmember _ (by decide))
    have hvalueKind : kindAt "value_kind" members = some valueKind :=
      kindAt_eq hg (hmember _ (by decide))
    have hentries : entriesAt "entries" members = some es := by
      have h : member? "entries" members = some (g (.array (jsonEntries es))) :=
        hmember _ (by decide)
      rw [entriesAt_eq, h, hg.array, Option.bind_some, entriesOf, entries_arranged hg es]
    rw [toJson, hmembers, ofJson?]
    simp only [hkind, hlabels, hunrepeated, hkeyKind, hvalueKind, hentries, Option.bind_eq_bind,
      Option.bind_some, Bool.not_true, Bool.false_eq_true, if_false]
    rfl
  | tuple l fields => by
    obtain ⟨members, hmembers, hkind, hlabels, hunrepeated, hmember⟩ :=
      exists_members hg l .tuple [("fields", .array (jsonList fields))]
        (by simp) (by simp [headNames])
    have hfields : treesAt "fields" members = some fields := by
      have h : member? "fields" members = some (g (.array (jsonList fields))) :=
        hmember _ (by decide)
      rw [treesAt_eq, h, hg.array, Option.bind_some, treesOf, trees_arranged hg fields]
    rw [toJson, hmembers, ofJson?]
    simp only [hkind, hlabels, hunrepeated, hfields, Option.bind_eq_bind, Option.bind_some,
      Bool.not_true, Bool.false_eq_true, if_false]
    rfl
  | enum l variantId variantName fields => by
    obtain ⟨members, hmembers, hkind, hlabels, hunrepeated, hmember⟩ :=
      exists_members hg l .enum
        (variantMembers variantId variantName ++ [("fields", .array (jsonList fields))])
        (by cases variantName <;> simp [variantMembers, Json.optional])
        (by cases variantName <;> simp [variantMembers, Json.optional, headNames])
    have hid : variantIdAt members = some variantId := by
      have h : member? "variant_id" members = some (g (.string variantId)) := hmember _ (by decide)
      simp only [variantIdAt, h, hg.string]
    have hname : optionalTextAt "variant_name" members = some variantName := by
      cases variantName with
      | none =>
        have h : member? "variant_name" members = none := hmember _ (by decide)
        simp only [optionalTextAt, h]
      | some name =>
        have h : member? "variant_name" members = some (g (.string name)) := hmember _ (by decide)
        simp only [optionalTextAt, h, hg.string]
    have hfields : treesAt "fields" members = some fields := by
      have h : member? "fields" members = some (g (.array (jsonList fields))) := by
        rw [hmember _ (by decide)]
        cases variantName <;> rfl
      rw [treesAt_eq, h, hg.array, Option.bind_some, treesOf, trees_arranged hg fields]
    rw [toJson, List.append_assoc, hmembers, ofJson?]
    simp only [hkind, hlabels, hunrepeated, hid, hname, hfields, Option.bind_eq_bind,
      Option.bind_some, Bool.not_true, Bool.false_eq_true, if_false]
    rfl

theorem trees_arranged (hg : Json.Arranges g) : ∀ ts : List Tree,
    trees ((jsonList ts).map g) = some ts
  | [] => by simp only [jsonList, List.map_nil, trees]
  | t :: ts => by
    simp only [jsonList, List.map_cons, trees, ofJson?_arranged hg t, trees_arranged hg ts,
      Option.bind_eq_bind, Option.bind_some]
    rfl

theorem entries_arranged (hg : Json.Arranges g) : ∀ es : List (Tree × Tree),
    entries ((jsonEntries es).map g) = some es
  | [] => by simp only [jsonEntries, List.map_nil, entries]
  | (k, v) :: es => by
    obtain ⟨members, hmembers, hkeeps⟩ := hg.object [("key", k.toJson), ("value", v.toJson)]
    obtain ⟨hdistinct, hget⟩ := hkeeps (by simp)
    have hkey : treeAt "key" members = some k := by
      rw [treeAt_eq, member?_eq_get?, hget]
      exact ofJson?_arranged hg k
    have hvalue : treeAt "value" members = some v := by
      rw [treeAt_eq, member?_eq_get?, hget]
      exact ofJson?_arranged hg v
    simp only [jsonEntries, List.map_cons, entries, hmembers, entry, hkey, hvalue,
      unrepeated_of_nodup hdistinct, entries_arranged hg es, Option.bind_eq_bind,
      Option.bind_some, if_true]
    rfl

end

/-- **Different trees differ as JSON**, in any arrangement of it. -/
theorem arranged_injective (hg : Json.Arranges g) {t u : Tree} (h : g t.toJson = g u.toJson) :
    t = u := by
  have ht := ofJson?_arranged hg t
  rw [h, ofJson?_arranged hg u] at ht
  exact (Option.some.inj ht).symm

end Tree
end SborSchema
