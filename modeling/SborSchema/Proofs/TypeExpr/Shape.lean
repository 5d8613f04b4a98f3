/-
# The shape of the values of a type

A type says what its values look like: a record with the declared names in
their order, a tuple of the declared length, a choice of a declared variant,
with a value unless the variant is a unit. The missing value stands nowhere but
in a record of a lenient struct. Here every value that a type parses is shown
to have its shape, if the names in it are distinct (`TypeExpr.shapes_of_parse`).

Key definitions: `LeafType.Shapes`, `TypeExpr.Shapes`, `Layout.Shapes`.
Key theorems: `TypeExpr.not_shapes_missing`, `TypeExpr.shapes_of_parse`.
-/
import SborSchema.Proofs.Hex
import SborSchema.Proofs.Schema.Success
import SborSchema.Proofs.TypeExpr.Parts
import SborSchema.Proofs.Value

namespace SborSchema

/-- The values of a leaf. Byte strings are lower-case digits, an even number of them;
integers and instants are in their ranges by construction. -/
def LeafType.Shapes : LeafType → Value → Prop
  | bytes, .bytes hex => Hex.Canonical hex
  | bool, .bool _ | string, .string _ | number, .integer _ | decimal, .decimal _
  | address, .address _ | internalAddress, .internalAddress _
  | nonFungibleLocalId, .nonFungibleLocalId _ | instant, .timestamp _ | value, .raw _ => True
  | _, _ => False

mutual

/-- The values that have the shape of a type. -/
inductive TypeExpr.Shapes : TypeExpr → Value → Prop
  | leaf {l : LeafType} {v : Value} (hleaf : l.Shapes v) : TypeExpr.Shapes (.leaf l) v
  | layout {L : Layout} {v : Value} (hlayout : Layout.Shapes L v) : TypeExpr.Shapes (.layout L) v
  | unit {variants : List (String × Option Layout)} {name : String}
      (hdeclared : (name, none) ∈ variants) : TypeExpr.Shapes (.enum variants) (.enum name none)
  | variant {variants : List (String × Option Layout)} {name : String} {L : Layout} {v : Value}
      (hdeclared : (name, some L) ∈ variants) (hpayload : Layout.Shapes L v) :
      TypeExpr.Shapes (.enum variants) (.enum name (some v))
  | none {inner : TypeExpr} : TypeExpr.Shapes (.option inner) (.option none)
  | some {inner : TypeExpr} {v : Value} (hinner : TypeExpr.Shapes inner v) :
      TypeExpr.Shapes (.option inner) (.option (some v))
  | map {key value : TypeExpr} {entries : List (Value × Value)}
      (hkeys : ∀ e ∈ entries, TypeExpr.Shapes key e.1)
      (hvalues : ∀ e ∈ entries, TypeExpr.Shapes value e.2) :
      TypeExpr.Shapes (.map key value) (.map entries)
  | array {element : TypeExpr} {items : List Value}
      (hitems : ∀ v ∈ items, TypeExpr.Shapes element v) :
      TypeExpr.Shapes (.array element) (.array items)

/-- The values that have the shape of a type, and the missing value. -/
inductive TypeExpr.ShapesOrMissing : TypeExpr → Value → Prop
  | present {type : TypeExpr} {v : Value} (h : TypeExpr.Shapes type v) :
      TypeExpr.ShapesOrMissing type v
  | missing {type : TypeExpr} : TypeExpr.ShapesOrMissing type .missing

/-- The values that have the shape of a layout. -/
inductive Layout.Shapes : Layout → Value → Prop
  | struct {fields : List (String × TypeExpr)} {values : List (String × Value)}
      (hnames : values.map (·.1) = fields.map (·.1))
      (hvalues : List.Forall₂ TypeExpr.Shapes (fields.map (·.2)) (values.map (·.2))) :
      Layout.Shapes (.struct false fields) (.record values)
  | lenientStruct {fields : List (String × TypeExpr)} {values : List (String × Value)}
      (hnames : values.map (·.1) = fields.map (·.1))
      (hvalues : List.Forall₂ TypeExpr.ShapesOrMissing (fields.map (·.2)) (values.map (·.2))) :
      Layout.Shapes (.struct true fields) (.record values)
  | tuple {types : List TypeExpr} {items : List Value}
      (hitems : List.Forall₂ TypeExpr.Shapes types items) :
      Layout.Shapes (.tuple types) (.tuple items)

end

/-- The missing value has the shape of no type. -/
theorem TypeExpr.not_shapes_missing (type : TypeExpr) : ¬type.Shapes .missing
  | .leaf hleaf => by rename_i l; cases l <;> exact hleaf
  | .layout hlayout => nomatch hlayout

/-- A value that is there and may be missing has the shape. -/
theorem TypeExpr.ShapesOrMissing.of_present? {type : TypeExpr} {v w : Value}
    (h : type.ShapesOrMissing v) (hw : v.present? = some w) : type.Shapes w := by
  obtain ⟨rfl, hne⟩ := Value.eq_of_present? hw
  cases h with
  | present h => exact h
  | missing => exact absurd rfl hne

/-! ### Every value has its shape -/

/-- Whatever the type gives has its shape, if the names in it are distinct. -/
def TypeExpr.Sound (type : TypeExpr) : Prop :=
  type.NamesDistinct → ∀ v, type.schema.Yields v → type.Shapes v

/-- Whatever the layout gives has its shape, if the names in it are distinct. -/
def Layout.Sound (L : Layout) : Prop :=
  L.All (fun _ => True) List.Nodup → ∀ v, L.payload.YieldsFields v → L.Shapes v

/-- What a schema gives for a tree behind the gate, its parse gives. -/
theorem Schema.Yields.exists_parse {α : Type} {s : Schema α} {a : α} (h : s.Yields a) :
    ∃ t p, s.parse t p = .ok a := by
  obtain ⟨t, p, h⟩ := h
  exact ⟨t, p, (Schema.parseGated_eq_ok.mp h).2⟩

namespace LeafType

/-- A byte string that is parsed comes back as lower-case digits. -/
theorem canonical_of_parse {t : Tree} {p : Path} {hex : String}
    (h : Schema.bytes.parse t p = .ok hex) : Hex.Canonical hex := by
  obtain ⟨_, hcheck, h⟩ := bind_eq_ok.mp h
  rcases t with ⟨labels, content⟩ | _ | _ | _ | _
  case leaf =>
    cases content with
    | bytes elementKind digits =>
      obtain rfl := Except.ok.inj h
      simp only [Schema.checkBytes] at hcheck
      split at hcheck
      · cases hcheck
      · split at hcheck
        · next hdecode => exact Hex.canonical_lower hdecode
        · cases hcheck
    | _ => cases h
  all_goals cases h

theorem sound (l : LeafType) : (TypeExpr.leaf l).Sound := by
  intro _ v hv
  obtain ⟨t, p, h⟩ := hv.exists_parse
  simp only [TypeExpr.schema] at h
  refine .leaf ?_
  cases l with
  | bytes =>
    obtain ⟨hex, hparse, rfl⟩ := map_eq_ok.mp h
    exact canonical_of_parse hparse
  | value =>
    obtain rfl := Except.ok.inj h
    trivial
  | _ =>
    obtain ⟨a, -, rfl⟩ := map_eq_ok.mp h
    trivial

end LeafType

namespace Layout

theorem sound_struct (allowMissing : Bool) (fields : List (String × TypeExpr))
    (hfields : ∀ f ∈ fields, f.2.Sound) : (struct allowMissing fields).Sound := by
  rintro ⟨hnodup, hdistinct⟩ v ⟨children, p, h⟩
  cases allowMissing with
  | false =>
    simp only [payload, fieldSchemas_eq_map] at h
    obtain ⟨values, hvalues, rfl⟩ := map_eq_ok.mp h
    have hvalues := List.forall₂_map_left_iff.mp (Payload.struct_yields hvalues)
    obtain ⟨hnames, hshapes⟩ := forall₂_named_iff.mp (forall₂_imp_of_mem
      (fun f hf g hfg => ⟨hfg.1, hfields f hf (hdistinct f hf) g.2 hfg.2⟩) hvalues)
    rw [Value.recordOf_of_nodup (hnames ▸ hnodup)]
    exact .struct hnames hshapes
  | true =>
    simp only [payload, fieldSchemas_eq_map] at h
    obtain ⟨values, hvalues, rfl⟩ := map_eq_ok.mp h
    have hvalues := List.forall₂_map_left_iff.mp (Payload.lenientStruct_yields hvalues)
    have hshapes : List.Forall₂ (fun f g => g.1 = f.1 ∧ f.2.ShapesOrMissing g.2) fields
        (values.map fun g => (g.1, g.2.getD .missing)) := by
      refine List.forall₂_map_right_iff.mpr (forall₂_imp_of_mem (fun f hf g hfg => ?_) hvalues)
      obtain ⟨name, value⟩ := g
      cases value with
      | none => exact ⟨hfg.1, .missing⟩
      | some v => exact ⟨hfg.1, .present (hfields f hf (hdistinct f hf) v (hfg.2 v rfl))⟩
    obtain ⟨hnames, hshapes⟩ := forall₂_named_iff.mp hshapes
    rw [Value.lenientRecordOf, Value.recordOf_of_nodup (hnames ▸ hnodup)]
    exact .lenientStruct hnames hshapes

theorem sound_tuple (types : List TypeExpr) (htypes : ∀ type ∈ types, type.Sound) :
    (tuple types).Sound := by
  rintro (_ | hdistinct) v ⟨children, p, h⟩
  simp only [payload, elementSchemas_eq_map] at h
  obtain ⟨items, hitems, rfl⟩ := map_eq_ok.mp h
  have hitems := List.forall₂_map_left_iff.mp (Payload.tuple_yields hitems)
  exact .tuple (forall₂_imp_of_mem (fun type ht v hv => htypes type ht (hdistinct type ht) v hv)
    hitems)

end Layout

namespace TypeExpr

theorem sound_layout (L : Layout) (hL : L.Sound) : (layout L).Sound := by
  intro hdistinct v hv
  cases hdistinct with
  | layout hdistinct =>
    obtain ⟨t, p, h⟩ := hv.exists_parse
    simp only [schema, L.parse_eq] at h
    obtain ⟨children, -, h⟩ := bind_eq_ok.mp h
    exact .layout (hL hdistinct v ⟨children, p, h⟩)

theorem sound_enum (variants : List (String × Option Layout))
    (hvariants : ∀ v ∈ variants, ∀ L, v.2 = some L → L.Sound) : (enum variants).Sound := by
  intro hdistinct v hv
  cases hdistinct with
  | enum _ hdistinct =>
    obtain ⟨t, p, h⟩ := hv.exists_parse
    simp only [schema, variantSchemas_eq] at h
    obtain ⟨⟨name, value⟩, hc, rfl⟩ := map_eq_ok.mp h
    obtain ⟨w, hw, rfl, hvalue⟩ := Schema.enum_yields hc
    obtain ⟨⟨name, layout⟩, hdeclared, rfl⟩ := List.mem_map.mp hw
    obtain ⟨hunit, rfl⟩ | ⟨payload, a, hpayload, rfl, ha⟩ := hvalue
    · obtain rfl : layout = none := Option.map_eq_none_iff.mp hunit
      exact .unit hdeclared
    · obtain ⟨L, rfl, rfl⟩ := Option.map_eq_some_iff.mp hpayload
      exact .variant hdeclared
        (hvariants _ hdeclared L rfl (hdistinct _ hdeclared L rfl) a ha)

theorem sound_option (inner : TypeExpr) (hinner : inner.Sound) : (option inner).Sound := by
  intro hdistinct v hv
  cases hdistinct with
  | option hdistinct =>
    obtain ⟨t, p, h⟩ := hv.exists_parse
    simp only [schema] at h
    obtain ⟨value, hparse, rfl⟩ := map_eq_ok.mp h
    cases value with
    | none => exact .none
    | some a => exact .some (hinner hdistinct a (Schema.option_yields hparse))

theorem sound_map (key value : TypeExpr) (hkey : key.Sound) (hvalue : value.Sound) :
    (map key value).Sound := by
  intro hdistinct v hv
  cases hdistinct with
  | map hdistinct hdistinct' =>
    obtain ⟨t, p, h⟩ := hv.exists_parse
    simp only [schema] at h
    obtain ⟨entries, hparse, rfl⟩ := map_eq_ok.mp h
    have hentries := Schema.mapping_yields hparse
    exact .map (fun e he => hkey hdistinct _ (hentries e he).1)
      (fun e he => hvalue hdistinct' _ (hentries e he).2)

theorem sound_array (element : TypeExpr) (helement : element.Sound) : (array element).Sound := by
  intro hdistinct v hv
  cases hdistinct with
  | array hdistinct =>
    obtain ⟨t, p, h⟩ := hv.exists_parse
    simp only [schema] at h
    obtain ⟨items, hparse, rfl⟩ := map_eq_ok.mp h
    exact .array fun a ha => helement hdistinct a (Schema.array_yields hparse a ha)

theorem sound_hereditary : Hereditary Sound Layout.Sound where
  leaf := LeafType.sound
  layout := sound_layout
  enum := sound_enum
  option := sound_option
  map := sound_map
  array := sound_array
  struct := Layout.sound_struct
  tuple := Layout.sound_tuple

/-- **Every value that a type parses has its shape**, if the names in it are distinct. -/
theorem shapes_of_parse {type : TypeExpr} (hnames : type.NamesDistinct) {t : Tree} {p : Path}
    {v : Value} (h : type.schema.parseGated t p = .ok v) : type.Shapes v :=
  sound_hereditary.type type hnames v ⟨t, p, h⟩

end TypeExpr
end SborSchema
