/-
# Relaxed types

A type is relaxed by making structs lenient and by declaring further variants
behind those of its enums, at any depth and at any number of places. What a
type parses, a relaxed one parses as the same value: a strict struct that
succeeds has nothing missing, and of several variants of one name the first one
counts, which is that of the unrelaxed type.

Key definitions: `TypeExpr.RelaxesTo`, `Layout.RelaxesTo`.
Key theorems: `Layout.kept_struct`, `TypeExpr.kept_hereditary`, `run_of_relaxesTo`.
-/
import SborSchema.Proofs.Schema.Extension
import SborSchema.Proofs.TypeExpr.Parts

namespace SborSchema

mutual

/-- The second type is the first one, with some structs made lenient and further variants
put behind those of some enums. -/
inductive TypeExpr.RelaxesTo : TypeExpr → TypeExpr → Prop
  | leaf (l : LeafType) : TypeExpr.RelaxesTo (.leaf l) (.leaf l)
  | layout {L L' : Layout} (hlayout : Layout.RelaxesTo L L') :
      TypeExpr.RelaxesTo (.layout L) (.layout L')
  | enum {variants variants' : List (String × Option Layout)}
      (hnames : variants'.map (·.1) = variants.map (·.1))
      (hpayloads : List.Forall₂ (Option.Rel Layout.RelaxesTo) (variants.map (·.2))
        (variants'.map (·.2)))
      (more : List (String × Option Layout)) :
      TypeExpr.RelaxesTo (.enum variants) (.enum (variants' ++ more))
  | option {inner inner' : TypeExpr} (hinner : TypeExpr.RelaxesTo inner inner') :
      TypeExpr.RelaxesTo (.option inner) (.option inner')
  | map {key key' value value' : TypeExpr} (hkey : TypeExpr.RelaxesTo key key')
      (hvalue : TypeExpr.RelaxesTo value value') :
      TypeExpr.RelaxesTo (.map key value) (.map key' value')
  | array {element element' : TypeExpr} (helement : TypeExpr.RelaxesTo element element') :
      TypeExpr.RelaxesTo (.array element) (.array element')

/-- The same of layouts. A lenient struct stays lenient. -/
inductive Layout.RelaxesTo : Layout → Layout → Prop
  | struct {allowMissing allowMissing' : Bool} {fields fields' : List (String × TypeExpr)}
      (hlenient : allowMissing = true → allowMissing' = true)
      (hnames : fields'.map (·.1) = fields.map (·.1))
      (hfields : List.Forall₂ TypeExpr.RelaxesTo (fields.map (·.2)) (fields'.map (·.2))) :
      Layout.RelaxesTo (.struct allowMissing fields) (.struct allowMissing' fields')
  | tuple {elements elements' : List TypeExpr}
      (helements : List.Forall₂ TypeExpr.RelaxesTo elements elements') :
      Layout.RelaxesTo (.tuple elements) (.tuple elements')

end

/-- Every relaxed type keeps what the type reads. -/
def TypeExpr.Kept (type : TypeExpr) : Prop :=
  ∀ type', type.RelaxesTo type' → type.schema.KeptBy type'.schema

/-- Every relaxed layout keeps what the layout reads. -/
def Layout.Kept (L : Layout) : Prop :=
  ∀ L', L.RelaxesTo L' → L.payload.KeptBy L'.payload

/-! ### Layouts -/

namespace Layout

/-- The fields of a relaxed struct have the same names, and their schemas keep what those of
the struct read. -/
theorem kept_fields {fields fields' : List (String × TypeExpr)}
    (hkept : ∀ f ∈ fields, f.2.Kept) (hnames : fields'.map (·.1) = fields.map (·.1))
    (hfields : List.Forall₂ TypeExpr.RelaxesTo (fields.map (·.2)) (fields'.map (·.2))) :
    List.Forall₂ (Schema.FieldRelated Schema.KeptBy) (fieldSchemas fields)
      (fieldSchemas fields') := by
  rw [fieldSchemas_eq_map, fieldSchemas_eq_map, List.forall₂_map_left_iff,
    List.forall₂_map_right_iff]
  refine forall₂_imp_of_mem (fun f hf f' hff' => ?_) (forall₂_named_iff.mpr ⟨hnames, hfields⟩)
  exact ⟨hff'.1.symm, hkept f hf f'.2 hff'.2⟩

/-- **A struct is kept by a relaxed one**, and by a lenient one in particular. -/
theorem kept_struct (allowMissing : Bool) (fields : List (String × TypeExpr))
    (hkept : ∀ f ∈ fields, f.2.Kept) : (struct allowMissing fields).Kept := by
  intro _ hrelaxes children p v hv
  cases hrelaxes with
  | @struct _ allowMissing' _ fields' hlenient hnames hfields =>
  have hschemas := kept_fields hkept hnames hfields
  cases allowMissing with
  | true =>
    obtain rfl := hlenient rfl
    simp only [payload] at hv ⊢
    exact (Payload.lenientStruct_keptBy hschemas).map _ _ _ _ hv
  | false =>
    simp only [payload] at hv
    -- The fields are relaxed first, then the struct itself.
    have hv := (Payload.struct_keptBy hschemas).map _ _ _ _ hv
    cases allowMissing' with
    | false =>
      simp only [payload]
      exact hv
    | true =>
      obtain ⟨values, hvalues, rfl⟩ := map_eq_ok.mp hv
      simp only [payload]
      exact map_eq_ok.mpr
        ⟨_, Payload.lenientStruct_of_struct hvalues, lenientRecordOf_map_some values⟩

theorem kept_tuple (elements : List TypeExpr) (hkept : ∀ type ∈ elements, type.Kept) :
    (tuple elements).Kept := by
  intro _ hrelaxes
  cases hrelaxes with
  | @tuple _ elements' helements =>
  have hschemas : List.Forall₂ Schema.KeptBy (elementSchemas elements)
      (elementSchemas elements') := by
    rw [elementSchemas_eq_map, elementSchemas_eq_map, List.forall₂_map_left_iff,
      List.forall₂_map_right_iff]
    exact forall₂_imp_of_mem (fun type ht type' h => hkept type ht type' h) helements
  simp only [payload]
  exact (Payload.tuple_keptBy hschemas).map _

end Layout

/-! ### Types -/

namespace TypeExpr

theorem kept_leaf (l : LeafType) : (leaf l).Kept := by
  rintro _ ⟨⟩
  exact fun _ _ _ hv => hv

/-- A layout that stands by itself is kept if its payload is. -/
theorem kept_layout (L : Layout) (hkept : L.Kept) : (layout L).Kept := by
  intro _ hrelaxes
  cases hrelaxes with
  | @layout _ L' hlayout =>
  simp only [schema]
  refine .of_parse (by rw [L.kinds_payload, L'.kinds_payload]) fun t p v hv => ?_
  rw [Layout.parse_eq] at hv ⊢
  obtain ⟨children, hchildren, hv⟩ := bind_eq_ok.mp hv
  exact bind_eq_ok.mpr ⟨children, hchildren, hkept L' hlayout _ _ _ hv⟩

theorem kept_enum (variants : List (String × Option Layout))
    (hkept : ∀ v ∈ variants, ∀ L, v.2 = some L → L.Kept) : (enum variants).Kept := by
  intro _ hrelaxes
  cases hrelaxes with
  | @enum _ variants' hnames hpayloads more =>
  have hvariants : List.Forall₂ (Variant.Related Payload.KeptBy)
      (variantsBy Layout.payload variants) (variantsBy Layout.payload variants') := by
    rw [variantsBy, variantsBy, List.forall₂_map_left_iff, List.forall₂_map_right_iff]
    refine forall₂_imp_of_mem (fun v hv v' hvv' => ?_)
      (forall₂_named_iff.mpr ⟨hnames, hpayloads⟩)
    obtain ⟨name, layout⟩ := v
    obtain ⟨_, layout'⟩ := v'
    obtain ⟨rfl, hrel⟩ := hvv'
    cases hrel with
    | none => exact .unit _
    | some hlayout => exact .new _ (hkept _ hv _ rfl _ hlayout)
  have hmore : variantsBy Layout.payload (variants' ++ more) =
      variantsBy Layout.payload variants' ++ variantsBy Layout.payload more := List.map_append
  simp only [schema, variantSchemas_eq, hmore]
  exact (Schema.enum_keptBy hvariants _).map _

theorem kept_option (inner : TypeExpr) (hkept : inner.Kept) : (option inner).Kept := by
  intro _ hrelaxes
  cases hrelaxes with
  | option hinner =>
  simp only [schema]
  exact (Schema.option_keptBy (hkept _ hinner)).map _

theorem kept_map (key value : TypeExpr) (hkey : key.Kept) (hvalue : value.Kept) :
    (map key value).Kept := by
  intro _ hrelaxes
  cases hrelaxes with
  | map hkey' hvalue' =>
  simp only [schema]
  exact (Schema.mapping_keptBy (hkey _ hkey') (hvalue _ hvalue')).map _

theorem kept_array (element : TypeExpr) (hkept : element.Kept) : (array element).Kept := by
  intro _ hrelaxes
  cases hrelaxes with
  | array helement =>
  simp only [schema]
  exact (Schema.array_keptBy (hkept _ helement)).map _

theorem kept_hereditary : Hereditary Kept Layout.Kept where
  leaf := kept_leaf
  layout := kept_layout
  enum := kept_enum
  option := kept_option
  map := kept_map
  array := kept_array
  struct := Layout.kept_struct
  tuple := Layout.kept_tuple

end TypeExpr

/-- **Relaxing a type neither rejects nor changes what it accepted**: a tree that a type
parses to a value, every relaxed type parses to the same value. -/
theorem run_of_relaxesTo {type type' : TypeExpr} (h : type.RelaxesTo type') {t : Tree} {v : Value}
    (hv : type.schema.run t = .ok v) : type'.schema.run t = .ok v :=
  TypeExpr.kept_hereditary.type type type' h t .root v hv

/-- The payload of a variant becomes lenient, and behind the variant a unit of the same name
is declared: the first one still counts. -/
theorem run_of_relaxesTo_payload :
    (TypeExpr.array (.enum [("Paid", some (.struct false [("by", .leaf .string)]))])).RelaxesTo
      (.array (.enum [("Paid", some (.struct true [("by", .leaf .string)])), ("Paid", none)])) ∧
    (TypeExpr.array (.enum [("Paid", some (.struct false [("by", .leaf .string)]))])).schema.run
      (.array {} .enum [.enum {} "0" (some "Paid") [.leaf ⟨none, some "by"⟩ (.string "card")]]) =
      .ok (.array [.enum "Paid" (some (.record [("by", .string "card")]))]) ∧
    (TypeExpr.array (.enum [("Paid", some (.struct true [("by", .leaf .string)])),
        ("Paid", none)])).schema.run
      (.array {} .enum [.enum {} "0" (some "Paid") [.leaf ⟨none, some "by"⟩ (.string "card")]]) =
      .ok (.array [.enum "Paid" (some (.record [("by", .string "card")]))]) := by
  have hpayload : Layout.RelaxesTo (.struct false [("by", .leaf .string)])
      (.struct true [("by", .leaf .string)]) := .struct nofun rfl (.cons (.leaf .string) .nil)
  have hvariants : TypeExpr.RelaxesTo
      (.enum [("Paid", some (.struct false [("by", .leaf .string)]))])
      (.enum ([("Paid", some (.struct true [("by", .leaf .string)]))] ++ [("Paid", none)])) := by
    refine .enum ?_ ?_ _
    · rfl
    · exact .cons (.some hpayload) .nil
  have hrun : (TypeExpr.array (.enum [("Paid",
        some (.struct false [("by", .leaf .string)]))])).schema.run
      (.array {} .enum [.enum {} "0" (some "Paid") [.leaf ⟨none, some "by"⟩ (.string "card")]]) =
      .ok (.array [.enum "Paid" (some (.record [("by", .string "card")]))]) := rfl
  exact ⟨.array hvariants, hrun, run_of_relaxesTo (.array hvariants) hrun⟩

end SborSchema
