/-
# The long form of a type in a document

Every type has a long form, in which each composite is a mapping of one key,
each leaf its name, and each unit variant null. The reader of documents gives
the type back from it, with all parts in order, if no enum is empty. Names that
are distinct in the type are distinct keys of its long form; and the other way
round, an untagged value has distinct keys, so whatever type is read from it
has distinct names. So the types that untagged values describe are those with
distinct names and no empty enum.

Key definitions: `TypeExpr.EnumsNonempty`, `TypeExpr.Proper`, `TypeExpr.toYaml`,
`Layout.toYaml`, `TypeExpr.ReadsProper`.
Key theorems: `TypeExpr.untagged_hereditary`, `TypeExpr.keysDistinct_hereditary`,
`TypeExpr.readBack_hereditary`, `TypeExpr.readsProper_of_untagged`, `TypeExpr.image_ofYaml`.
-/
import SborSchema.Proofs.TypeExpr.Parts
import SborSchema.Proofs.TypeExpr.Reading
import SborSchema.Proofs.Yaml

namespace SborSchema

mutual

/-- Every enum in the type has a variant. -/
inductive TypeExpr.EnumsNonempty : TypeExpr → Prop
  | leaf (l : LeafType) : TypeExpr.EnumsNonempty (.leaf l)
  | layout {L : Layout} (hlayout : Layout.EnumsNonempty L) : TypeExpr.EnumsNonempty (.layout L)
  | enum {variants : List (String × Option Layout)} (hne : variants ≠ [])
      (hvariants : ∀ v ∈ variants, ∀ L, v.2 = some L → Layout.EnumsNonempty L) :
      TypeExpr.EnumsNonempty (.enum variants)
  | option {inner : TypeExpr} (hinner : TypeExpr.EnumsNonempty inner) :
      TypeExpr.EnumsNonempty (.option inner)
  | map {key value : TypeExpr} (hkey : TypeExpr.EnumsNonempty key)
      (hvalue : TypeExpr.EnumsNonempty value) : TypeExpr.EnumsNonempty (.map key value)
  | array {element : TypeExpr} (helement : TypeExpr.EnumsNonempty element) :
      TypeExpr.EnumsNonempty (.array element)

/-- The same of a layout. -/
inductive Layout.EnumsNonempty : Layout → Prop
  | struct {allowMissing : Bool} {fields : List (String × TypeExpr)}
      (hfields : ∀ f ∈ fields, TypeExpr.EnumsNonempty f.2) :
      Layout.EnumsNonempty (.struct allowMissing fields)
  | tuple {elements : List TypeExpr} (helements : ∀ type ∈ elements, TypeExpr.EnumsNonempty type) :
      Layout.EnumsNonempty (.tuple elements)

end

/-- The names in the type are distinct and no enum in it is empty. -/
def TypeExpr.Proper (type : TypeExpr) : Prop := type.NamesDistinct ∧ type.EnumsNonempty

/-- The same of a layout. -/
def Layout.Proper (L : Layout) : Prop := L.All (fun _ => True) List.Nodup ∧ L.EnumsNonempty

/-! ### The long form -/

mutual

/-- The long form of a type. -/
def TypeExpr.toYaml : TypeExpr → Yaml
  | .leaf l => .string l.name
  | .layout L => L.toYaml
  | .enum variants => .named [("enum", .named (variantValues variants))]
  | .option inner => .named [("option", inner.toYaml)]
  | .map key value => .named [("map", .named [("key", key.toYaml), ("value", value.toYaml)])]
  | .array element => .named [("array", element.toYaml)]

/-- The long form of a layout, by itself and as a payload. -/
def Layout.toYaml : Layout → Yaml
  | .struct allowMissing fields =>
    .named [((Layout.struct allowMissing fields).word, .named (fieldValues fields))]
  | .tuple elements => .named [((Layout.tuple elements).word, .sequence (elementValues elements))]

/-- The long forms of the fields of a struct, at their names. -/
def fieldValues : List (String × TypeExpr) → List (String × Yaml)
  | [] => []
  | (name, type) :: rest => (name, type.toYaml) :: fieldValues rest

/-- The long forms of the elements of a tuple. -/
def elementValues : List TypeExpr → List Yaml
  | [] => []
  | type :: rest => type.toYaml :: elementValues rest

/-- The long forms of the payloads of an enum, at the names of the variants. -/
def variantValues : List (String × Option Layout) → List (String × Yaml)
  | [] => []
  | (name, none) :: rest => (name, .null) :: variantValues rest
  | (name, some L) :: rest => (name, L.toYaml) :: variantValues rest

end

/-- The long form of what a variant holds. -/
def payloadValue (payload : Option Layout) : Yaml := payload.elim .null Layout.toYaml

theorem fieldValues_eq_map (fields : List (String × TypeExpr)) :
    fieldValues fields = fields.map fun f => (f.1, f.2.toYaml) := by
  induction fields with
  | nil => rfl
  | cons f rest ih => rw [fieldValues, ih, List.map_cons]

theorem elementValues_eq_map (elements : List TypeExpr) :
    elementValues elements = elements.map TypeExpr.toYaml := by
  induction elements with
  | nil => rfl
  | cons type rest ih => rw [elementValues, ih, List.map_cons]

theorem variantValues_eq_map (variants : List (String × Option Layout)) :
    variantValues variants = variants.map fun v => (v.1, payloadValue v.2) := by
  induction variants with
  | nil => rfl
  | cons v rest ih =>
    obtain ⟨name, payload⟩ := v
    cases payload with
    | none =>
      rw [variantValues, ih]
      rfl
    | some L =>
      rw [variantValues, ih]
      rfl

/-! ### The long form is a value of a document -/

namespace TypeExpr

/-- No tag occurs in the long form. -/
theorem untagged_hereditary : Hereditary (fun type => type.toYaml.Untagged)
    (fun L => L.toYaml.Untagged) where
  leaf l := by
    rw [toYaml]
    exact .string _
  layout L hL := by rwa [toYaml]
  enum variants hvariants := by
    rw [toYaml, variantValues_eq_map]
    refine .named (List.forall_mem_singleton.mpr (.named (List.forall_mem_map.mpr ?_)))
    rintro ⟨name, _ | L⟩ hv
    · exact .null
    · exact hvariants _ hv L rfl
  option inner hinner := by
    rw [toYaml]
    exact .named (List.forall_mem_singleton.mpr hinner)
  map key value hkey hvalue := by
    rw [toYaml]
    refine .named (List.forall_mem_singleton.mpr (.named ?_))
    exact List.forall_mem_cons.mpr ⟨hkey, List.forall_mem_singleton.mpr hvalue⟩
  array element helement := by
    rw [toYaml]
    exact .named (List.forall_mem_singleton.mpr helement)
  struct allowMissing fields hfields := by
    rw [Layout.toYaml, fieldValues_eq_map]
    exact .named (List.forall_mem_singleton.mpr (.named (List.forall_mem_map.mpr hfields)))
  tuple elements helements := by
    rw [Layout.toYaml, elementValues_eq_map]
    exact .named (List.forall_mem_singleton.mpr (.sequence (List.forall_mem_map.mpr helements)))

/-- A mapping of one key has no two keys that are the same. -/
theorem keysDistinct_one {word : String} {body : Yaml} (h : body.KeysDistinct) :
    (Yaml.named [(word, body)]).KeysDistinct :=
  .named (List.nodup_singleton _) (List.forall_mem_singleton.mpr h)

/-- Distinct names are distinct keys of the long form. -/
theorem keysDistinct_hereditary : Hereditary
    (fun type => type.NamesDistinct → type.toYaml.KeysDistinct)
    (fun L => L.All (fun _ => True) List.Nodup → L.toYaml.KeysDistinct) where
  leaf l _ := by
    rw [toYaml]
    exact .string _
  layout L hL hnames := by
    cases hnames with
    | layout hnames =>
    rw [toYaml]
    exact hL hnames
  enum variants hvariants hnames := by
    cases hnames with
    | enum hnodup hnames =>
    rw [toYaml, variantValues_eq_map]
    refine keysDistinct_one (.named ?_ (List.forall_mem_map.mpr ?_))
    · rwa [List.map_map]
    · rintro ⟨name, _ | L⟩ hv
      · exact .null
      · exact hvariants _ hv L rfl (hnames _ hv L rfl)
  option inner hinner hnames := by
    cases hnames with
    | option hnames =>
    rw [toYaml]
    exact keysDistinct_one (hinner hnames)
  map key value hkey hvalue hnames := by
    cases hnames with
    | map hnames hnames' =>
    rw [toYaml]
    refine keysDistinct_one (.named (by simp) ?_)
    exact List.forall_mem_cons.mpr ⟨hkey hnames, List.forall_mem_singleton.mpr (hvalue hnames')⟩
  array element helement hnames := by
    cases hnames with
    | array hnames =>
    rw [toYaml]
    exact keysDistinct_one (helement hnames)
  struct allowMissing fields hfields hnames := by
    cases hnames with
    | struct hnodup hnames =>
    rw [Layout.toYaml, fieldValues_eq_map]
    refine keysDistinct_one (.named ?_ (List.forall_mem_map.mpr fun f hf => ?_))
    · rwa [List.map_map]
    · exact hfields f hf (hnames f hf)
  tuple elements helements hnames := by
    cases hnames with
    | tuple hnames =>
    rw [Layout.toYaml, elementValues_eq_map]
    refine keysDistinct_one (.sequence (List.forall_mem_map.mpr fun type ht => ?_))
    exact helements type ht (hnames type ht)

/-! ### The long form is read back -/

/-- A mapping of one word to a body is read as the composite of both. -/
theorem ofYaml_one {word : String} {body : Yaml} {type : TypeExpr} (h : Composite body word type) :
    ofYaml (.named [(word, body)]) = .ok type := by
  simp only [Yaml.named, List.map_cons, List.map_nil, ofYaml]
  exact compositeOf_eq_ok.mpr ⟨_, body, word, rfl, rfl, h⟩

theorem fieldsOf_fieldValues {fields : List (String × TypeExpr)}
    (h : ∀ f ∈ fields, ofYaml f.2.toYaml = .ok f.2) :
    fieldsOf (.named (fieldValues fields)) = .ok fields := by
  rw [fieldValues_eq_map, Yaml.named, fieldsOf, fieldEntries_eq_ok, List.map_map,
    List.forall₂_map_left_iff, List.forall₂_same]
  exact fun f hf => ⟨rfl, h f hf⟩

theorem elementsOf_elementValues {elements : List TypeExpr}
    (h : ∀ type ∈ elements, ofYaml type.toYaml = .ok type) :
    elementsOf (.sequence (elementValues elements)) = .ok elements := by
  rw [elementValues_eq_map, elementsOf, elementItems_eq_ok, List.forall₂_map_left_iff,
    List.forall₂_same]
  exact h

/-- The long form of a payload is null for a unit variant only. -/
theorem payloadOf_payloadValue {payload : Option Layout}
    (h : ∀ L, payload = some L → ofYaml L.toYaml = .ok (.layout L)) :
    payloadOf (payloadValue payload) (ofYaml (payloadValue payload)) = .ok payload := by
  refine payloadOf_eq_ok.mpr ?_
  cases payload with
  | none => exact .inl ⟨rfl, rfl⟩
  | some L =>
    have hnull : (payloadValue (some L)).isNull = false := by
      cases L with
      | struct | tuple =>
        simp only [payloadValue, Option.elim, Layout.toYaml]
        rfl
    exact .inr ⟨hnull, L, h L rfl, rfl⟩

theorem variantsOf_variantValues {variants : List (String × Option Layout)} (hne : variants ≠ [])
    (h : ∀ v ∈ variants, ∀ L, v.2 = some L → ofYaml L.toYaml = .ok (.layout L)) :
    variantsOf (.named (variantValues variants)) = .ok variants := by
  obtain ⟨v, vs, rfl⟩ := List.exists_cons_of_ne_nil hne
  have hentries : variantEntries ((variantValues (v :: vs)).map fun e => (.string e.1, e.2)) =
      .ok (v :: vs) := by
    rw [variantEntries_eq_ok, variantValues_eq_map, List.map_map, List.forall₂_map_left_iff,
      List.forall₂_same]
    exact fun w hw => ⟨rfl, payloadOf_payloadValue (h w hw)⟩
  rw [variantValues_eq_map] at hentries ⊢
  exact hentries

/-- **The long form of a type is read as the type**, if no enum in it is empty. -/
theorem readBack_hereditary : Hereditary
    (fun type => type.EnumsNonempty → ofYaml type.toYaml = .ok type)
    (fun L => L.EnumsNonempty → ofYaml L.toYaml = .ok (.layout L)) where
  leaf l _ := by
    rw [toYaml, ofYaml, ofName_name]
    rfl
  layout L hL hne := by
    cases hne with
    | layout hne =>
    rw [toYaml]
    exact hL hne
  enum variants hvariants hne := by
    cases hne with
    | enum hne hparts =>
    have hread := variantsOf_variantValues hne fun v hv L hL =>
      hvariants v hv L hL (hparts v hv L hL)
    rw [toYaml]
    exact ofYaml_one (.enum hread)
  option inner hinner hne := by
    cases hne with
    | option hne =>
    rw [toYaml]
    exact ofYaml_one (.option (hinner hne))
  map key value hkey hvalue hne := by
    cases hne with
    | map hne hne' =>
    rw [toYaml]
    refine ofYaml_one (.map ?_ ?_)
    · exact hkey hne
    · exact hvalue hne'
  array element helement hne := by
    cases hne with
    | array hne =>
    rw [toYaml]
    exact ofYaml_one (.array (helement hne))
  struct allowMissing fields hfields hne := by
    cases hne with
    | struct hne =>
    have hread := fieldsOf_fieldValues fun f hf => hfields f hf (hne f hf)
    rw [Layout.toYaml]
    cases allowMissing with
    | false => exact ofYaml_one (.struct hread)
    | true => exact ofYaml_one (.lenientStruct hread)
  tuple elements helements hne := by
    cases hne with
    | tuple hne =>
    have hread := elementsOf_elementValues fun type ht => helements type ht (hne type ht)
    rw [Layout.toYaml]
    exact ofYaml_one (.tuple hread)

/-! ### What is read from untagged values -/

section Proper

variable {type key value : TypeExpr} {L : Layout}

theorem Proper.leaf (l : LeafType) : (leaf l).Proper := ⟨.leaf trivial, .leaf l⟩

theorem Proper.layout (h : L.Proper) : (layout L).Proper := ⟨.layout h.1, .layout h.2⟩

theorem Proper.enum {variants : List (String × Option Layout)} (hne : variants ≠ [])
    (hnodup : (variants.map (·.1)).Nodup) (h : ∀ v ∈ variants, ∀ L, v.2 = some L → L.Proper) :
    (enum variants).Proper :=
  ⟨.enum hnodup fun v hv L hL => (h v hv L hL).1, .enum hne fun v hv L hL => (h v hv L hL).2⟩

theorem Proper.option (h : type.Proper) : (option type).Proper := ⟨.option h.1, .option h.2⟩

theorem Proper.map (hkey : key.Proper) (hvalue : value.Proper) : (map key value).Proper :=
  ⟨.map hkey.1 hvalue.1, .map hkey.2 hvalue.2⟩

theorem Proper.array (h : type.Proper) : (array type).Proper := ⟨.array h.1, .array h.2⟩

theorem Proper.struct {allowMissing : Bool} {fields : List (String × TypeExpr)}
    (hnodup : (fields.map (·.1)).Nodup) (h : ∀ f ∈ fields, f.2.Proper) :
    (Layout.struct allowMissing fields).Proper :=
  ⟨.struct hnodup fun f hf => (h f hf).1, .struct fun f hf => (h f hf).2⟩

theorem Proper.tuple {elements : List TypeExpr} (h : ∀ type ∈ elements, type.Proper) :
    (Layout.tuple elements).Proper :=
  ⟨.tuple fun type ht => (h type ht).1, .tuple fun type ht => (h type ht).2⟩

theorem Proper.of_layout (h : (TypeExpr.layout L).Proper) : L.Proper := by
  obtain ⟨hnames, hne⟩ := h
  cases hnames with
  | layout hnames =>
  cases hne with
  | layout hne => exact ⟨hnames, hne⟩

end Proper

/-- Whatever part of a type the value is read as, names are distinct and enums are not empty. -/
structure ReadsProper (y : Yaml) : Prop where
  type : ∀ type, ofYaml y = .ok type → type.Proper
  fields : ∀ fields, fieldsOf y = .ok fields →
    (fields.map (·.1)).Nodup ∧ ∀ f ∈ fields, f.2.Proper
  elements : ∀ elements, elementsOf y = .ok elements → ∀ type ∈ elements, type.Proper
  variants : ∀ variants, variantsOf y = .ok variants →
    variants ≠ [] ∧ (variants.map (·.1)).Nodup ∧ ∀ v ∈ variants, ∀ L, v.2 = some L → L.Proper
  part : ∀ name type, partOf name y = .ok type → type.Proper

/-- A composite is proper if what its body is read as is. -/
theorem Composite.proper {word : String} {body : Yaml} {type : TypeExpr} (hbody : ReadsProper body)
    (h : Composite body word type) : type.Proper := by
  cases h with
  | struct hfields | lenientStruct hfields =>
    obtain ⟨hnodup, hproper⟩ := hbody.fields _ hfields
    exact .layout (Proper.struct hnodup hproper)
  | tuple helements =>
    exact .layout (Proper.tuple (hbody.elements _ helements))
  | enum hvariants =>
    obtain ⟨hne, hnodup, hproper⟩ := hbody.variants _ hvariants
    exact .enum hne hnodup hproper
  | option hinner => exact .option (hbody.type _ hinner)
  | array helement => exact .array (hbody.type _ helement)
  | map hkey hvalue =>
    exact .map (hbody.part _ _ hkey) (hbody.part _ _ hvalue)

theorem readsProper_null : ReadsProper .null where
  type _ h := by cases h
  fields _ h := by
    obtain rfl := Except.ok.inj h
    exact ⟨List.nodup_nil, by simp⟩
  elements _ h := by
    obtain rfl := Except.ok.inj h
    simp
  variants _ h := by cases h
  part _ _ h := by cases h

/-- A name is read as a type without structs and enums. -/
theorem readsProper_string (s : String) : ReadsProper (.string s) where
  type type h := by
    rw [ofYaml] at h
    exact ofNameChars_induct .leaf (fun _ => .array) (fun _ => .option) (mapError_eq_ok.mp h)
  fields _ h := by cases h
  elements _ h := by cases h
  variants _ h := by cases h
  part _ _ h := by cases h

theorem readsProper_sequence {items : List Yaml} (hitems : ∀ y ∈ items, ReadsProper y) :
    ReadsProper (.sequence items) where
  type _ h := by cases h
  fields _ h := by cases h
  elements types h := by
    rw [elementsOf, elementItems_eq_ok] at h
    exact forall_mem_of_forall₂_right h fun y hy type htype => (hitems y hy).type type htype
  variants _ h := by cases h
  part _ _ h := by cases h

theorem readsProper_mapping {entries : List (Yaml × Yaml)} (hkeys : ∀ e ∈ entries, e.1.Untagged)
    (hdistinct : entries.Pairwise fun e e' => Yaml.same e.1 e'.1 = false)
    (hvalues : ∀ e ∈ entries, ReadsProper e.2) : ReadsProper (.mapping entries) where
  type type h := by
    rw [ofYaml] at h
    obtain ⟨key, body, word, rfl, -, hcomposite⟩ := compositeOf_eq_ok.mp h
    exact hcomposite.proper (hvalues _ List.mem_cons_self)
  fields fields h := by
    rw [fieldsOf, fieldEntries_eq_ok] at h
    exact ⟨Yaml.nodup_of_keysDistinct hkeys hdistinct (h.imp fun _ _ hf => hf.1),
      forall_mem_of_forall₂_right h fun e he f hf => (hvalues e he).type f.2 hf.2⟩
  elements _ h := by cases h
  variants variants h := by
    cases entries with
    | nil => cases h
    | cons entry entries =>
      rw [variantsOf, variantEntries_eq_ok] at h
      refine ⟨?_, Yaml.nodup_of_keysDistinct hkeys hdistinct (h.imp fun _ _ hv => hv.1),
        forall_mem_of_forall₂_right h fun e he v hv L hL => ?_⟩
      · rintro rfl
        cases h
      · obtain ⟨-, hnone⟩ | ⟨-, L', htype, hsome⟩ := payloadOf_eq_ok.mp hv.2
        · cases hL.symm.trans hnone
        · obtain rfl := Option.some.inj (hL.symm.trans hsome)
          exact ((hvalues e he).type _ htype).of_layout
  part name type h := by
    rw [partOf] at h
    obtain ⟨e, he, htype⟩ := partAt_eq_ok h
    exact (hvalues e he).type type htype

/-- **Whatever an untagged value is read as, names are distinct and no enum is empty.** -/
theorem readsProper_of_untagged {y : Yaml} (h : y.Untagged) : y.KeysDistinct → ReadsProper y := by
  -- Every reader goes one level down at a time, so all of them stand in one induction.
  induction h with
  | null => exact fun _ => readsProper_null
  | bool b | number n =>
    refine fun _ => ⟨?_, ?_, ?_, ?_, ?_⟩
    all_goals
      intros
      contradiction
  | string s => exact fun _ => readsProper_string s
  | sequence _ ih =>
    intro hdistinct
    cases hdistinct with
    | sequence hitems => exact readsProper_sequence fun y hy => ih y hy (hitems y hy)
  | mapping hkeys _ _ ih =>
    intro hdistinct
    cases hdistinct with
    | mapping hdistinct _ hvalues =>
      exact readsProper_mapping hkeys hdistinct fun e he => ih e he (hvalues e he)

/-- **Untagged values describe the types with distinct names and no empty enum, and no
others.** Such a type has a long form, which is an untagged value with distinct keys and is
read as the type; and a type that is read from any such value has distinct names and no empty
enum. -/
theorem image_ofYaml (type : TypeExpr) :
    (type.NamesDistinct → type.EnumsNonempty →
      type.toYaml.Untagged ∧ type.toYaml.KeysDistinct ∧ ofYaml type.toYaml = .ok type) ∧
    ((∃ y : Yaml, y.Untagged ∧ y.KeysDistinct ∧ ofYaml y = .ok type) ↔
      type.NamesDistinct ∧ type.EnumsNonempty) := by
  have hlong (hnames : type.NamesDistinct) (hne : type.EnumsNonempty) :
      type.toYaml.Untagged ∧ type.toYaml.KeysDistinct ∧ ofYaml type.toYaml = .ok type :=
    ⟨untagged_hereditary.type type, keysDistinct_hereditary.type type hnames,
      readBack_hereditary.type type hne⟩
  refine ⟨hlong, ?_, fun h => ⟨type.toYaml, hlong h.1 h.2⟩⟩
  rintro ⟨y, huntagged, hdistinct, h⟩
  exact (readsProper_of_untagged huntagged hdistinct).type type h

/-- A lenient payload beside a unit, below a map. -/
theorem image_ofYaml_nested :
    (map (.leaf .address) (.enum [("Closed", none),
      ("Open", some (.struct true [("limit", .leaf .decimal)]))])).NamesDistinct ∧
    (map (.leaf .address) (.enum [("Closed", none),
      ("Open", some (.struct true [("limit", .leaf .decimal)]))])).EnumsNonempty ∧
    ofYaml (.named [("map", .named [("key", .string "address"), ("value", .named [("enum",
      .named [("Closed", .null), ("Open", .named [("struct_allowing_missing",
        .named [("limit", .string "decimal")])])])])])]) =
      .ok (map (.leaf .address) (.enum [("Closed", none),
        ("Open", some (.struct true [("limit", .leaf .decimal)]))])) := by
  have hnames : (map (.leaf .address) (.enum [("Closed", none),
      ("Open", some (.struct true [("limit", .leaf .decimal)]))])).NamesDistinct := by
    refine .map (.leaf trivial) (.enum (by decide) ?_)
    rintro ⟨_, _⟩ hv L rfl
    obtain ⟨-, rfl⟩ : _ ∧ L = .struct true [("limit", .leaf .decimal)] := by simpa using hv
    exact .struct (by decide) (List.forall_mem_singleton.mpr (.leaf trivial))
  have hne : (map (.leaf .address) (.enum [("Closed", none),
      ("Open", some (.struct true [("limit", .leaf .decimal)]))])).EnumsNonempty := by
    refine .map (.leaf _) (.enum (List.cons_ne_nil _ _) ?_)
    rintro ⟨_, _⟩ hv L rfl
    obtain ⟨-, rfl⟩ : _ ∧ L = .struct true [("limit", .leaf .decimal)] := by simpa using hv
    exact .struct (List.forall_mem_singleton.mpr (.leaf _))
  exact ⟨hnames, hne, ((image_ofYaml _).1 hnames hne).2.2⟩

end TypeExpr
end SborSchema
