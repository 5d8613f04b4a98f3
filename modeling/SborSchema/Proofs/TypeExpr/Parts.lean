/-
# Type expressions by their parts

A type expression is a leaf, or is made of smaller ones that stand in lists of
fields, elements and variants. Here is the induction over all of them at once,
and what the schema of a type takes from its parts: the schemas of a list are
those of its members, and the accepted kinds are known from the outermost part.

Key definitions: `Hereditary`, `TypeExpr.All`, `TypeExpr.NamesDistinct`, `TypeExpr.NoRaw`,
`TypeExpr.accepted`.
Key theorems: `Hereditary.type`, `TypeExpr.kinds_schema`.
-/
import SborSchema.TypeExpr.Compile

namespace SborSchema

/-! ### Induction -/

/-- Properties of types and of layouts that pass from the parts to the whole. -/
structure Hereditary (P : TypeExpr → Prop) (Q : Layout → Prop) : Prop where
  leaf (l : LeafType) : P (.leaf l)
  layout (L : Layout) (hL : Q L) : P (.layout L)
  enum (variants : List (String × Option Layout))
    (hvariants : ∀ v ∈ variants, ∀ L, v.2 = some L → Q L) : P (.enum variants)
  option (inner : TypeExpr) (hinner : P inner) : P (.option inner)
  map (key value : TypeExpr) (hkey : P key) (hvalue : P value) : P (.map key value)
  array (element : TypeExpr) (helement : P element) : P (.array element)
  struct (allowMissing : Bool) (fields : List (String × TypeExpr))
    (hfields : ∀ f ∈ fields, P f.2) : Q (.struct allowMissing fields)
  tuple (elements : List TypeExpr) (helements : ∀ type ∈ elements, P type) : Q (.tuple elements)

namespace Hereditary

variable {P : TypeExpr → Prop} {Q : Layout → Prop}

mutual

/-- A property that passes from the parts to the whole holds of every type. -/
theorem type (h : Hereditary P Q) : ∀ type, P type
  | .leaf l => h.leaf l
  | .layout L => h.layout L (h.layouts L)
  | .enum vs => h.enum vs (h.variants vs)
  | .option inner => h.option inner (h.type inner)
  | .map key value => h.map key value (h.type key) (h.type value)
  | .array element => h.array element (h.type element)

/-- A property that passes from the parts to the whole holds of every layout. -/
theorem layouts (h : Hereditary P Q) : ∀ L, Q L
  | .struct allowMissing fs => h.struct allowMissing fs (h.fields fs)
  | .tuple es => h.tuple es (h.elements es)

theorem fields (h : Hereditary P Q) : ∀ fs : List (String × TypeExpr), ∀ f ∈ fs, P f.2
  | [] => fun _ hf => nomatch hf
  | (_, head) :: rest => List.forall_mem_cons.mpr ⟨h.type head, h.fields rest⟩

theorem elements (h : Hereditary P Q) : ∀ es : List TypeExpr, ∀ type ∈ es, P type
  | [] => fun _ ht => nomatch ht
  | head :: rest => List.forall_mem_cons.mpr ⟨h.type head, h.elements rest⟩

theorem variants (h : Hereditary P Q) : ∀ vs : List (String × Option Layout), ∀ v ∈ vs,
    ∀ L, v.2 = some L → Q L
  | [] => fun _ hv => nomatch hv
  | (_, none) :: rest => List.forall_mem_cons.mpr ⟨fun _ hL => (nomatch hL), h.variants rest⟩
  | (_, some L) :: rest =>
    List.forall_mem_cons.mpr ⟨fun _ hL => Option.some.inj hL ▸ h.layouts L, h.variants rest⟩

end

end Hereditary

/-! ### Conditions on all parts -/

mutual

/-- Every leaf of the type meets one condition, and the names of the fields of every struct
and of the variants of every enum another. -/
inductive TypeExpr.All (onLeaf : LeafType → Prop) (onNames : List String → Prop) :
    TypeExpr → Prop
  | leaf {l : LeafType} (hleaf : onLeaf l) : TypeExpr.All onLeaf onNames (.leaf l)
  | layout {L : Layout} (hlayout : Layout.All onLeaf onNames L) :
      TypeExpr.All onLeaf onNames (.layout L)
  | enum {variants : List (String × Option Layout)} (hnames : onNames (variants.map (·.1)))
      (hvariants : ∀ v ∈ variants, ∀ L, v.2 = some L → Layout.All onLeaf onNames L) :
      TypeExpr.All onLeaf onNames (.enum variants)
  | option {inner : TypeExpr} (hinner : TypeExpr.All onLeaf onNames inner) :
      TypeExpr.All onLeaf onNames (.option inner)
  | map {key value : TypeExpr} (hkey : TypeExpr.All onLeaf onNames key)
      (hvalue : TypeExpr.All onLeaf onNames value) : TypeExpr.All onLeaf onNames (.map key value)
  | array {element : TypeExpr} (helement : TypeExpr.All onLeaf onNames element) :
      TypeExpr.All onLeaf onNames (.array element)

/-- The same of a layout. -/
inductive Layout.All (onLeaf : LeafType → Prop) (onNames : List String → Prop) : Layout → Prop
  | struct {allowMissing : Bool} {fields : List (String × TypeExpr)}
      (hnames : onNames (fields.map (·.1)))
      (hfields : ∀ f ∈ fields, TypeExpr.All onLeaf onNames f.2) :
      Layout.All onLeaf onNames (.struct allowMissing fields)
  | tuple {elements : List TypeExpr}
      (helements : ∀ type ∈ elements, TypeExpr.All onLeaf onNames type) :
      Layout.All onLeaf onNames (.tuple elements)

end

/-- No struct has two fields of one name, and no enum two variants of one name. -/
def TypeExpr.NamesDistinct : TypeExpr → Prop := TypeExpr.All (fun _ => True) List.Nodup

/-- No part of the type keeps a tree whole. -/
def TypeExpr.NoRaw : TypeExpr → Prop := TypeExpr.All (· ≠ .value) fun _ => True

/-! ### Lists of parts -/

theorem fieldSchemas_eq_map : ∀ fields : List (String × TypeExpr),
    fieldSchemas fields = fields.map fun f => (f.1, f.2.schema)
  | [] => rfl
  | (_, _) :: rest => congrArg (List.cons _) (fieldSchemas_eq_map rest)

theorem elementSchemas_eq_map : ∀ elements : List TypeExpr,
    elementSchemas elements = elements.map TypeExpr.schema
  | [] => rfl
  | _ :: rest => congrArg (List.cons _) (elementSchemas_eq_map rest)

/-- The declared variants of an enum, with the payloads that `read` gives their layouts. -/
def variantsBy {α : Type} (read : Layout → Payload α) (declared : List (String × Option Layout)) :
    List (Variant α) :=
  declared.map fun d => ⟨d.1, d.2.map read⟩

theorem variantSchemas_eq : ∀ variants : List (String × Option Layout),
    variantSchemas variants = variantsBy Layout.payload variants
  | [] => rfl
  | (_, none) :: rest => congrArg (List.cons _) (variantSchemas_eq rest)
  | (_, some _) :: rest => congrArg (List.cons _) (variantSchemas_eq rest)

theorem names_variantsBy {α : Type} (read : Layout → Payload α)
    (declared : List (String × Option Layout)) :
    (variantsBy read declared).map (·.name) = declared.map (·.1) := by
  rw [variantsBy, List.map_map]
  rfl

/-- The variant of a name is found among the declared ones. -/
theorem find?_variantsBy {α : Type} (read : Layout → Payload α)
    (declared : List (String × Option Layout)) (name : String) :
    (variantsBy read declared).find? (·.name == name) =
      (declared.find? (·.1 == name)).map fun d => ⟨d.1, d.2.map read⟩ := by
  rw [variantsBy, List.find?_map]
  rfl

/-- The record of a strict struct is that of a lenient one with nothing missing. -/
theorem Layout.lenientRecordOf_map_some (values : List (String × Value)) :
    Value.lenientRecordOf (values.map fun g => (g.1, some g.2)) = Value.recordOf values := by
  rw [Value.lenientRecordOf, List.map_map]
  exact congrArg Value.recordOf (List.map_id' values)

/-! ### Accepted kinds -/

/-- The kinds of node that a leaf type accepts. -/
def LeafType.accepted : LeafType → KindSet
  | bool => .single .bool
  | string => .single .string
  | bytes => .single .bytes
  | number => .integers
  | decimal => .decimals
  | address => .single .reference
  | internalAddress => .single .own
  | nonFungibleLocalId => .single .nonFungibleLocalId
  | instant => .single (.integer .i64)
  | value => .all

/-- The kinds of node that a type accepts. -/
def TypeExpr.accepted : TypeExpr → KindSet
  | leaf l => l.accepted
  | layout _ => .single .tuple
  | enum _ => .single .enum
  | option _ => .single .enum
  | map .. => .single .map
  | array _ => .single .array

theorem Layout.kinds_payload : ∀ L : Layout, L.payload.kinds = .single .tuple
  | .struct false _ | .struct true _ | .tuple _ => by
    simp only [Layout.payload]
    rfl

/-- A layout that stands by itself reads the fields of a tuple node. -/
theorem Layout.parse_eq (t : Tree) (p : Path) : ∀ L : Layout,
    L.payload.parse t p = t.tupleFields p >>= fun children => L.payload.parseFields children p
  | .struct false _ | .struct true _ | .tuple _ => by cases t <;> rfl

/-- The kinds of the schema of a type are the kinds that the type accepts. -/
theorem TypeExpr.kinds_schema : ∀ type : TypeExpr, type.schema.kinds = type.accepted
  | .leaf l => by cases l <;> (simp only [TypeExpr.schema]; rfl)
  | .layout L => by simp only [TypeExpr.schema, L.kinds_payload, accepted]
  | .enum _ | .option _ | .map _ _ | .array _ => by
    simp only [TypeExpr.schema]
    rfl

end SborSchema
