/-
# The values of a type

The values that a type parses are exactly those of its shape, if it keeps no
tree whole and the names in it are distinct (`run_eq_ok_iff_shapes`). That
nothing else is parsed is shown with the shapes. Here a tree is built for every
value of the shape, part by part. Nothing reads the labels of the top node of a
part, so each part is built under any labels (`Schema.Reaches`), and the child
of a struct gets the name of its field. As the names are distinct, that child
is the first of its name among all children.

Key definitions: `Schema.Reaches`, `TypeExpr.Complete`.
Key theorems: `exists_children`, `run_eq_ok_iff_shapes`.
-/
import SborSchema.Proofs.Schema.Scalar
import SborSchema.Proofs.Tree.Child
import SborSchema.Proofs.Tree.Kind
import SborSchema.Proofs.TypeExpr.Shape

namespace SborSchema

/-! ### Children of distinct names -/

/-- The schema reads the value from a tree of any labels. -/
def Schema.Reaches {α : Type} (s : Schema α) (a : α) : Prop :=
  ∀ l : Labels, ∃ t : Tree, t.labels = l ∧ s.Reads t a

/-- Fields of distinct names find their values among children that are built one for each
value that is there. -/
theorem exists_children {α : Type} {fields : List (String × Schema α)}
    {values : List (String × Option α)} (hnodup : (fields.map (·.1)).Nodup)
    (h : List.Forall₂ (fun f g => g.1 = f.1 ∧ ∀ a, g.2 = some a → f.2.Reaches a) fields values) :
    ∃ children, (∀ t ∈ children, ∃ f ∈ fields, t.fieldName = some f.1) ∧
      List.Forall₂ (fun f g => g.1 = f.1 ∧ Option.Rel f.2.Reads (Tree.child? f.1 children) g.2)
        fields values := by
  induction h with
  | nil => exact ⟨[], nofun, .nil⟩
  | @cons f g fields values head _ ih =>
    rw [List.map_cons, List.nodup_cons] at hnodup
    obtain ⟨children, hnames, htail⟩ := ih hnodup.2
    obtain ⟨hname, hvalue⟩ := head
    have hnew : ∀ f' ∈ fields, some f.1 ≠ some f'.1 := fun f' hf' heq =>
      hnodup.1 (Option.some.inj heq ▸ List.mem_map_of_mem hf')
    cases hg : g.2 with
    | none =>
      have hnone : Tree.child? f.1 children = none := Tree.child?_eq_none_iff.mpr fun t ht heq => by
        obtain ⟨f', hf', hft⟩ := hnames t ht
        exact hnew f' hf' (heq.symm.trans hft)
      refine ⟨children, fun t ht => ?_, .cons ⟨hname, ?_⟩ htail⟩
      · obtain ⟨f', hf', hft⟩ := hnames t ht
        exact ⟨f', List.mem_cons_of_mem _ hf', hft⟩
      · rw [hnone, hg]
        exact .none
    | some a =>
      obtain ⟨t, hlabels, hread⟩ := hvalue a hg ⟨none, some f.1⟩
      have ht : t.fieldName = some f.1 := by rw [Tree.fieldName, hlabels]
      refine ⟨t :: children, List.forall_mem_cons.mpr ⟨⟨f, List.mem_cons_self, ht⟩, fun u hu => ?_⟩,
        .cons ⟨hname, ?_⟩ (forall₂_imp_of_mem (fun f' hf' g' hg' => ⟨hg'.1, ?_⟩) htail)⟩
      · obtain ⟨f', hf', hfu⟩ := hnames u hu
        exact ⟨f', List.mem_cons_of_mem _ hf', hfu⟩
      · rw [Tree.child?_cons_of_eq ht, hg]
        exact .some hread
      · rw [Tree.child?_cons_of_ne (ht ▸ hnew f' hf')]
        exact hg'.2

/-! ### Every shape is reached -/

/-- Every value of the shape of the type is read from some tree of any labels, if the
type keeps no tree whole and the names in it are distinct. -/
def TypeExpr.Complete (type : TypeExpr) : Prop :=
  type.NoRaw → type.NamesDistinct → ∀ v, type.Shapes v → type.schema.Reaches v

/-- Every value of the shape of the layout is read from some fields, if the layout keeps
no tree whole and the names in it are distinct. -/
def Layout.Complete (L : Layout) : Prop :=
  L.All (· ≠ .value) (fun _ => True) → L.All (fun _ => True) List.Nodup → ∀ v, L.Shapes v →
    ∃ children, ∀ p, L.payload.parseFields children p = .ok v

namespace LeafType

/-- An even number of lower-case digits is read as it stands. -/
theorem bytes_reads {hex : String} (hhex : Hex.Canonical hex) (labels : Labels) :
    Schema.bytes.Reads (.leaf labels (.bytes (.integer .u8) hex)) hex := by
  intro p
  obtain ⟨bytes, hdecode⟩ := hhex.exists_decode
  have hcheck : Schema.checkBytes (.leaf labels (.bytes (.integer .u8) hex)) p = .ok () := by
    simp [Schema.checkBytes, hdecode]
  refine Schema.parseGated_eq_ok.mpr ⟨by simp [Schema.bytes, Tree.kind, Leaf.kind], ?_⟩
  simp only [Schema.bytes, hcheck, ok_bind, hhex.lower_eq]

/-- Every value of a leaf is read from some content. -/
theorem exists_content {l : LeafType} {v : Value} (hl : l ≠ .value) (hv : l.Shapes v)
    (labels : Labels) : ∃ content, l.schema.Reads (.leaf labels content) v := by
  cases l with
  | value => exact absurd rfl hl
  | bool =>
    cases v with
    | bool b => exact ⟨.bool b, (Schema.ofLeaf_reads labels (by simp [Leaf.kind]) rfl).map _⟩
    | _ => cases hv
  | string =>
    cases v with
    | string s => exact ⟨.string s, (Schema.textLeaf_reads labels (by rfl) (by rfl)).map _⟩
    | _ => cases hv
  | bytes =>
    cases v with
    | bytes hex => exact ⟨.bytes (.integer .u8) hex, (bytes_reads hv labels).map _⟩
    | _ => cases hv
  | number =>
    cases v with
    | integer x =>
      exact ⟨.integer x.kind x.text, (Schema.ofLeaf_reads labels
        (KindSet.contains_integers.mpr ⟨x.kind, rfl⟩) (congrArg some x.read_text)).map _⟩
    | _ => cases hv
  | decimal =>
    cases v with
    | decimal s =>
      refine ⟨.decimal s, (Schema.ofLeaf_reads labels ?_ rfl).map _⟩
      simp [Leaf.kind, KindSet.decimals, KindSet.contains_ofList]
    | _ => cases hv
  | address =>
    cases v with
    | address s =>
      exact ⟨.reference s, (Schema.textLeaf_reads labels (by rfl) (by rfl)).map _⟩
    | _ => cases hv
  | internalAddress =>
    cases v with
    | internalAddress s =>
      exact ⟨.own s, (Schema.textLeaf_reads labels (by rfl) (by rfl)).map _⟩
    | _ => cases hv
  | nonFungibleLocalId =>
    cases v with
    | nonFungibleLocalId s =>
      exact ⟨.nonFungibleLocalId s, (Schema.textLeaf_reads labels (by rfl) (by rfl)).map _⟩
    | _ => cases hv
  | instant =>
    cases v with
    | timestamp t =>
      refine ⟨.integer .i64 t.toInteger.text, (Schema.ofLeaf_reads labels ?_ ?_).map _⟩
      · simp [Leaf.kind]
      · exact (if_pos rfl).trans (congrArg some (Schema.readInstant_text t))
    | _ => cases hv

theorem complete (l : LeafType) : (TypeExpr.leaf l).Complete := by
  rintro ⟨hraw⟩ - v ⟨hv⟩ labels
  obtain ⟨content, hread⟩ := exists_content hraw hv labels
  exact ⟨.leaf labels content, rfl, by simpa only [TypeExpr.schema] using hread⟩

end LeafType

namespace Layout

variable {fields : List (String × TypeExpr)}

/-- The fields of a struct find their values among children that are built for them. -/
theorem exists_children_of_fields {values : List (String × Option Value)}
    (hnodup : (fields.map (·.1)).Nodup)
    (h : List.Forall₂ (fun f g => g.1 = f.1 ∧ ∀ v, g.2 = some v → f.2.schema.Reaches v)
      fields values) :
    ∃ children, List.Forall₂ (fun f g => g.1 = f.1 ∧
      Option.Rel f.2.Reads (Tree.child? f.1 children) g.2) (fieldSchemas fields) values := by
  have hnames : (fieldSchemas fields).map (·.1) = fields.map (·.1) := by
    rw [fieldSchemas_eq_map, List.map_map]
    rfl
  have hfields : List.Forall₂ (fun f g => g.1 = f.1 ∧ ∀ v, g.2 = some v → f.2.Reaches v)
      (fieldSchemas fields) values := by
    rw [fieldSchemas_eq_map]
    exact List.forall₂_map_left_iff.mpr h
  obtain ⟨children, -, hchildren⟩ := exists_children (hnames ▸ hnodup) hfields
  exact ⟨children, hchildren⟩

theorem complete_strict (fields : List (String × TypeExpr))
    (hfields : ∀ f ∈ fields, f.2.Complete) : (struct false fields).Complete := by
  rintro (⟨-, hraw⟩ | _) (⟨hnodup, hdistinct⟩ | _) _ (⟨hnames, hvalues⟩ | _ | _)
  rename_i values
  have hreached : List.Forall₂ (fun f g => g.1 = f.1 ∧ ∀ v, g.2 = some v → f.2.schema.Reaches v)
      fields (values.map fun g => (g.1, some g.2)) := by
    refine List.forall₂_map_right_iff.mpr (forall₂_imp_of_mem (fun f hf g hfg => ⟨hfg.1, ?_⟩)
      (forall₂_named_iff.mpr ⟨hnames, hvalues⟩))
    rintro _ ⟨⟩
    exact hfields f hf (hraw f hf) (hdistinct f hf) g.2 hfg.2
  obtain ⟨children, hchildren⟩ := exists_children_of_fields hnodup hreached
  refine ⟨children, fun p => ?_⟩
  simp only [payload]
  refine map_eq_ok.mpr ⟨values, Payload.struct_reads ?_ p, ?_⟩
  · exact List.forall₂_map_right_iff.mp hchildren
  · exact Value.recordOf_of_nodup (hnames ▸ hnodup)

theorem complete_lenient (fields : List (String × TypeExpr))
    (hfields : ∀ f ∈ fields, f.2.Complete) : (struct true fields).Complete := by
  rintro (⟨-, hraw⟩ | _) (⟨hnodup, hdistinct⟩ | _) _ (_ | ⟨hnames, hvalues⟩ | _)
  rename_i values
  have hreached : List.Forall₂ (fun f g => g.1 = f.1 ∧ ∀ v, g.2 = some v → f.2.schema.Reaches v)
      fields (values.map fun g => (g.1, g.2.present?)) := by
    refine List.forall₂_map_right_iff.mpr (forall₂_imp_of_mem (fun f hf g hfg => ⟨hfg.1, ?_⟩)
      (forall₂_named_iff.mpr ⟨hnames, hvalues⟩))
    intro v hv
    exact hfields f hf (hraw f hf) (hdistinct f hf) v (hfg.2.of_present? hv)
  obtain ⟨children, hchildren⟩ := exists_children_of_fields hnodup hreached
  refine ⟨children, fun p => ?_⟩
  simp only [payload]
  refine map_eq_ok.mpr ⟨_, Payload.lenientStruct_reads hchildren p, ?_⟩
  have hvalues : (values.map fun g => (g.1, g.2.present?)).map
      (fun f => (f.1, f.2.getD .missing)) = values := by
    simp only [List.map_map, Function.comp_def, Value.getD_present?, List.map_id']
  rw [Value.lenientRecordOf, hvalues]
  exact Value.recordOf_of_nodup (hnames ▸ hnodup)

theorem complete_struct (allowMissing : Bool) (fields : List (String × TypeExpr))
    (hfields : ∀ f ∈ fields, f.2.Complete) : (struct allowMissing fields).Complete := by
  cases allowMissing with
  | false => exact complete_strict fields hfields
  | true => exact complete_lenient fields hfields

theorem complete_tuple (types : List TypeExpr) (htypes : ∀ type ∈ types, type.Complete) :
    (tuple types).Complete := by
  rintro (_ | hraw) (_ | hdistinct) _ (_ | _ | hitems)
  rename_i items
  have hreached : List.Forall₂ (fun type v => ∃ t, type.schema.Reads t v) types items := by
    refine forall₂_imp_of_mem (fun type ht v hv => ?_) hitems
    obtain ⟨t, -, hread⟩ := htypes type ht (hraw type ht) (hdistinct type ht) v hv {}
    exact ⟨t, hread⟩
  obtain ⟨xs, rfl, hxs⟩ := exists_forall₂_pair hreached
  refine ⟨xs.map Prod.fst, fun p => ?_⟩
  simp only [payload, elementSchemas_eq_map]
  exact map_eq_ok.mpr ⟨_, Payload.tuple_reads (List.forall₂_map_left_iff.mpr hxs) p, rfl⟩

end Layout

namespace TypeExpr

theorem complete_layout (L : Layout) (hL : L.Complete) : (layout L).Complete := by
  rintro (_ | hraw) (_ | hdistinct) v (_ | hv) labels
  obtain ⟨children, hchildren⟩ := hL hraw hdistinct v hv
  refine ⟨.tuple labels children, rfl, fun p => Schema.parseGated_eq_ok.mpr ⟨?_, ?_⟩⟩
  · simp [kinds_schema, accepted, Tree.kind]
  · simp only [schema, L.parse_eq]
    exact hchildren p

theorem complete_enum (variants : List (String × Option Layout))
    (hvariants : ∀ v ∈ variants, ∀ L, v.2 = some L → L.Complete) : (enum variants).Complete := by
  intro hraw hdistinct v hv labels
  cases hraw with
  | enum _ hraw =>
  cases hdistinct with
  | enum hnodup hdistinct =>
  simp only [schema, variantSchemas_eq]
  cases hv with
  | @unit _ name hdeclared =>
    have hfind : (variantsBy Layout.payload variants).find? (·.name == name) = some ⟨name, none⟩ := by
      rw [find?_variantsBy, find?_of_mem hnodup hdeclared]
      rfl
    exact ⟨.enum labels "" (some name) [], rfl, (Schema.enum_reads_unit labels "" hfind).map _⟩
  | @variant _ name L v hdeclared hv =>
    have hfind : (variantsBy Layout.payload variants).find? (·.name == name) =
        some ⟨name, some L.payload⟩ := by
      rw [find?_variantsBy, find?_of_mem hnodup hdeclared]
      rfl
    obtain ⟨children, hchildren⟩ := hvariants _ hdeclared L rfl (hraw _ hdeclared L rfl)
      (hdistinct _ hdeclared L rfl) v hv
    exact ⟨.enum labels "" (some name) children, rfl,
      (Schema.enum_reads labels "" hfind hchildren).map _⟩

theorem complete_option (inner : TypeExpr) (hinner : inner.Complete) :
    (option inner).Complete := by
  intro hraw hdistinct v hv labels
  cases hraw with
  | option hraw =>
  cases hdistinct with
  | option hdistinct =>
  simp only [schema]
  cases hv with
  | none =>
    exact ⟨.enum labels "" (some "None") [], rfl, (Schema.option_reads_none _ labels "").map _⟩
  | some hv =>
    obtain ⟨t, -, hread⟩ := hinner hraw hdistinct _ hv {}
    exact ⟨.enum labels "" (some "Some") [t], rfl, (Schema.option_reads_some labels "" hread).map _⟩

theorem complete_map (key value : TypeExpr) (hkey : key.Complete) (hvalue : value.Complete) :
    (map key value).Complete := by
  intro hraw hdistinct v hv labels
  cases hraw with
  | map hraw hraw' =>
  cases hdistinct with
  | map hdistinct hdistinct' =>
  cases hv with
  | @map _ _ entries hkeys hvalues =>
    have hreached : ∀ e ∈ entries, ∃ u : Tree × Tree,
        key.schema.Reads u.1 e.1 ∧ value.schema.Reads u.2 e.2 := by
      intro e he
      obtain ⟨t, -, ht⟩ := hkey hraw hdistinct e.1 (hkeys e he) {}
      obtain ⟨u, -, hu⟩ := hvalue hraw' hdistinct' e.2 (hvalues e he) {}
      exact ⟨(t, u), ht, hu⟩
    obtain ⟨us, hus⟩ := exists_forall₂ hreached
    simp only [schema]
    exact ⟨.map labels .string .string us, rfl,
      (Schema.mapping_reads labels .string .string hus.flip).map _⟩

theorem complete_array (element : TypeExpr) (helement : element.Complete) :
    (array element).Complete := by
  intro hraw hdistinct v hv labels
  cases hraw with
  | array hraw =>
  cases hdistinct with
  | array hdistinct =>
  cases hv with
  | @array _ items hitems =>
    have hreached : ∀ v ∈ items, ∃ t, element.schema.Reads t v := by
      intro v hv
      obtain ⟨t, -, ht⟩ := helement hraw hdistinct v (hitems v hv) {}
      exact ⟨t, ht⟩
    obtain ⟨ts, hts⟩ := exists_forall₂ hreached
    simp only [schema]
    exact ⟨.array labels .string ts, rfl, (Schema.array_reads labels .string hts.flip).map _⟩

theorem complete_hereditary : Hereditary Complete Layout.Complete where
  leaf := LeafType.complete
  layout := complete_layout
  enum := complete_enum
  option := complete_option
  map := complete_map
  array := complete_array
  struct := Layout.complete_struct
  tuple := Layout.complete_tuple

end TypeExpr

/-- **The values of a type are those of its shape.** If the type keeps no tree whole and
the names in it are distinct, a value is parsed from some tree if and only if it has the
shape of the type. -/
theorem run_eq_ok_iff_shapes {type : TypeExpr} (hraw : type.NoRaw) (hnames : type.NamesDistinct)
    (v : Value) : (∃ t, type.schema.run t = .ok v) ↔ type.Shapes v := by
  constructor
  · rintro ⟨t, h⟩
    exact TypeExpr.shapes_of_parse hnames h
  · intro hv
    obtain ⟨t, -, hread⟩ := TypeExpr.complete_hereditary.type type hraw hnames v hv {}
    exact ⟨t, hread .root⟩

/-- A record with a missing field and a byte string in an option is parsed from some tree. -/
theorem run_eq_ok_iff_shapes_record : ∃ type : TypeExpr, type.NoRaw ∧ type.NamesDistinct ∧
    ∃ t, type.schema.run t =
      .ok (.record [("flag", .missing), ("digits", .option (some (.bytes "0a")))]) := by
  have hraw : (TypeExpr.lenientStruct
      [("flag", .leaf .bool), ("digits", .option (.leaf .bytes))]).NoRaw :=
    .layout (.struct trivial (List.forall_mem_cons.mpr
      ⟨.leaf nofun, List.forall_mem_cons.mpr ⟨.option (.leaf nofun), nofun⟩⟩))
  have hnames : (TypeExpr.lenientStruct
      [("flag", .leaf .bool), ("digits", .option (.leaf .bytes))]).NamesDistinct :=
    .layout (.struct (by decide) (List.forall_mem_cons.mpr
      ⟨.leaf trivial, List.forall_mem_cons.mpr ⟨.option (.leaf trivial), nofun⟩⟩))
  have hhex : LeafType.bytes.Shapes (.bytes "0a") := by
    change Hex.Canonical "0a"
    decide
  exact ⟨_, hraw, hnames, (run_eq_ok_iff_shapes hraw hnames _).mpr (.layout
    (.lenientStruct rfl (.cons .missing (.cons (.present (.some (.leaf hhex))) .nil))))⟩

end SborSchema
