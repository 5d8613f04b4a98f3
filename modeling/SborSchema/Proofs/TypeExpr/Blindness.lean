/-
# Parsing by a type looks at the data only

Two trees with the same data are parsed alike by every type: both are accepted,
or both are refused with one error. What is parsed is the same too, unless some
part of the type keeps a tree whole, labels and all.

Key definitions: `TypeExpr.Blind`, `Layout.Blind`.
Key theorems: `LeafType.parse_sameData`, `TypeExpr.blind_hereditary`, `run_of_sameData`.
-/
import SborSchema.Proofs.Schema.Blindness
import SborSchema.Proofs.TypeExpr.Parts

namespace SborSchema

/-- The schema of the type is blind; values are the same if no part keeps a tree whole. -/
def TypeExpr.Blind (type : TypeExpr) : Prop :=
  ∀ same : Prop, (same → type.NoRaw) → type.schema.Blind same

/-- The payload of the layout is blind; values are the same if no part keeps a tree whole. -/
def Layout.Blind (L : Layout) : Prop :=
  ∀ same : Prop, (same → L.All (· ≠ .value) fun _ => True) → L.payload.Blind same

namespace LeafType

/-- Any other leaf reads the content of a leaf node, and refuses the rest for its kind. -/
theorem parse_sameData {l : LeafType} (hl : l ≠ .value) {t u : Tree} (h : t.SameData u)
    (p : Path) : l.schema.parse t p = l.schema.parse u p := by
  cases h with
  | array | map | tuple | enum =>
    cases l with
    | value => exact absurd rfl hl
    | _ => rfl
  | leaf labels labels' content =>
    cases l with
    | value => exact absurd rfl hl
    | bytes => cases content <;> rfl
    | _ => rfl

theorem blind (l : LeafType) : (TypeExpr.leaf l).Blind := by
  intro same hraw
  change l.schema.Blind same
  refine .of_parse fun t u htu p => ?_
  by_cases hl : l = .value
  · subst hl
    -- The tree is kept with its labels, so the values differ; but then they need not agree.
    refine .ok fun hsame => ?_
    cases hraw hsame with
    | leaf hne => exact absurd rfl hne
  · rw [parse_sameData hl htu]
    exact .refl _

end LeafType

namespace Layout

theorem blind_struct (allowMissing : Bool) (fields : List (String × TypeExpr))
    (hfields : ∀ f ∈ fields, f.2.Blind) : (struct allowMissing fields).Blind := by
  intro same hraw
  have hschemas : ∀ f ∈ fieldSchemas fields, f.2.Blind same := by
    rw [fieldSchemas_eq_map, List.forall_mem_map]
    intro f hf
    refine hfields f hf same fun hsame => ?_
    cases hraw hsame with
    | struct _ hraw => exact hraw f hf
  cases allowMissing with
  | false =>
    exact (Payload.struct_blind hschemas).map _
  | true =>
    exact (Payload.lenientStruct_blind hschemas).map _

theorem blind_tuple (elements : List TypeExpr) (helements : ∀ type ∈ elements, type.Blind) :
    (tuple elements).Blind := by
  intro same hraw
  have hschemas : ∀ s ∈ elementSchemas elements, s.Blind same := by
    rw [elementSchemas_eq_map, List.forall_mem_map]
    intro type ht
    refine helements type ht same fun hsame => ?_
    cases hraw hsame with
    | tuple hraw => exact hraw type ht
  exact (Payload.tuple_blind hschemas).map _

end Layout

namespace TypeExpr

/-- A layout that stands by itself reads the fields of a tuple node, and those only. -/
theorem blind_layout (L : Layout) (hL : L.Blind) : (layout L).Blind := by
  intro same hraw
  have hpayload : L.payload.Blind same := hL same fun hsame => by
    cases hraw hsame with
    | layout hraw => exact hraw
  change L.payload.toSchema.Blind same
  refine .of_parse fun t u htu p => ?_
  rw [L.parse_eq, L.parse_eq]
  cases htu with
  | tuple l l' hnames hfields => exact hpayload _ _ ⟨hnames, hfields⟩ p
  | leaf | array | map | enum => exact .error _

theorem blind_enum (variants : List (String × Option Layout))
    (hvariants : ∀ v ∈ variants, ∀ L, v.2 = some L → L.Blind) : (enum variants).Blind := by
  intro same hraw
  simp only [schema, variantSchemas_eq]
  refine (Schema.enum_blind fun v hv payload hpayload => ?_).map _
  obtain ⟨d, hd, rfl⟩ := List.mem_map.mp hv
  obtain ⟨L, hL, rfl⟩ := Option.map_eq_some_iff.mp hpayload
  refine hvariants d hd L hL same fun hsame => ?_
  cases hraw hsame with
  | enum _ hraw => exact hraw d hd L hL

theorem blind_option (inner : TypeExpr) (hinner : inner.Blind) : (option inner).Blind := by
  intro same hraw
  have hschema : inner.schema.Blind same := hinner same fun hsame => by
    cases hraw hsame with
    | option hraw => exact hraw
  exact (Schema.option_blind hschema).map _

theorem blind_map (key value : TypeExpr) (hkey : key.Blind) (hvalue : value.Blind) :
    (map key value).Blind := by
  intro same hraw
  have hparts (hsame : same) : key.NoRaw ∧ value.NoRaw := by
    cases hraw hsame with
    | map hkey hvalue => exact ⟨hkey, hvalue⟩
  have hkeys : key.schema.Blind same := hkey same fun hsame => (hparts hsame).1
  have hvalues : value.schema.Blind same := hvalue same fun hsame => (hparts hsame).2
  exact (Schema.mapping_blind hkeys hvalues).map _

theorem blind_array (element : TypeExpr) (helement : element.Blind) : (array element).Blind := by
  intro same hraw
  have hschema : element.schema.Blind same := helement same fun hsame => by
    cases hraw hsame with
    | array hraw => exact hraw
  exact (Schema.array_blind hschema).map _

theorem blind_hereditary : Hereditary Blind Layout.Blind where
  leaf := LeafType.blind
  layout := blind_layout
  enum := blind_enum
  option := blind_option
  map := blind_map
  array := blind_array
  struct := Layout.blind_struct
  tuple := Layout.blind_tuple

end TypeExpr

/-- **Parsing sees the data only.** Two trees with the same data are both accepted by a type,
or both refused with the same error; and if the type keeps no tree whole, they are parsed to
the same value. -/
theorem run_of_sameData (type : TypeExpr) {t u : Tree} (h : t.SameData u) :
    ((∃ v w, type.schema.run t = .ok v ∧ type.schema.run u = .ok w) ∨
      ∃ e, type.schema.run t = .error e ∧ type.schema.run u = .error e) ∧
    (type.NoRaw → type.schema.run t = type.schema.run u) := by
  have hblind := TypeExpr.blind_hereditary.type type type.NoRaw id t u h .root
  exact ⟨hblind.ok_or_error, hblind.eq⟩

/-- Other type names, declared kinds, variant ids and field names of elements do not count. -/
theorem run_of_sameData_labels :
    (Tree.array ⟨some "Bids", none⟩ .enum [.enum ⟨none, some "first"⟩ "1" (some "Some")
        [.leaf {} (.bool true)]]).SameData
      (.array ⟨none, some "bids"⟩ .tuple [.enum {} "0" (some "Some")
        [.leaf ⟨some "Bid", none⟩ (.bool true)]]) ∧
    (TypeExpr.array (.option (.leaf .bool))).NoRaw ∧
    (TypeExpr.array (.option (.leaf .bool))).schema.run
      (.array ⟨some "Bids", none⟩ .enum [.enum ⟨none, some "first"⟩ "1" (some "Some")
        [.leaf {} (.bool true)]]) = .ok (.array [.option (some (.bool true))]) ∧
    (TypeExpr.array (.option (.leaf .bool))).schema.run
      (.array ⟨none, some "bids"⟩ .tuple [.enum {} "0" (some "Some")
        [.leaf ⟨some "Bid", none⟩ (.bool true)]]) = .ok (.array [.option (some (.bool true))]) := by
  have hsame : (Tree.array ⟨some "Bids", none⟩ .enum [.enum ⟨none, some "first"⟩ "1" (some "Some")
        [.leaf {} (.bool true)]]).SameData
      (.array ⟨none, some "bids"⟩ .tuple [.enum {} "0" (some "Some")
        [.leaf ⟨some "Bid", none⟩ (.bool true)]]) :=
    .array _ _ _ _ (.cons (.enum _ _ _ _ _ rfl (.cons (.leaf _ _ _) .nil)) .nil)
  have hraw : (TypeExpr.array (.option (.leaf .bool))).NoRaw := .array (.option (.leaf (by decide)))
  exact ⟨hsame, hraw, rfl, ((run_of_sameData _ hsame).2 hraw).symm⟩

end SborSchema
