/-
# How schemas are built

Every schema is built from the leaves by composites, adapters and recursion. A
term writes down how: `SchemaTerm Δ Γ α` is a schema for values of type `α`
that may refer to enclosing recursive schemas. An owner in `Γ` may be referred
to where the term stands; an owner in `Δ` only below a composite of the term,
which is where `Δ` and `Γ` come together. So a term cannot refer to its owner
before a node of the tree has been left behind. A reference whose owner is gone
is one that is read as `Schema.detached`.

`interpret` gives the schema of a term, and lets the composites handle the
schemas of their parts in another way than the usual one; `schema` is the usual
one. A schema put into a box is the schema itself.

Key definitions: `Refs`, `SchemaTerm`, `PayloadTerm`, `SchemaTerm.interpret`,
`SchemaTerm.schema`, `PayloadTerm.toPayload`.
-/
import SborSchema.TypeExpr.Compile

namespace SborSchema

/-! ### References -/

/-- A reference to one of a list of owners, the innermost first. -/
inductive Ref : List Type → Type → Type 1
  | here {Γ : List Type} {α : Type} : Ref (α :: Γ) α
  | there {Γ : List Type} {α β : Type} (x : Ref Γ α) : Ref (β :: Γ) α

/-- What the references to a list of owners are read as. -/
inductive Refs : List Type → Type 1
  | nil : Refs []
  | cons {Γ : List Type} {α : Type} (owner : Schema α) (rest : Refs Γ) : Refs (α :: Γ)

namespace Refs

/-- What a reference is read as. -/
def get {α : Type} : {Γ : List Type} → Refs Γ → Ref Γ α → Schema α
  | _, cons owner _, .here => owner
  | _, cons _ rest, .there x => rest.get x

/-- The owners of two lists. -/
def append {Γ : List Type} : {Δ : List Type} → Refs Δ → Refs Γ → Refs (Δ ++ Γ)
  | _, nil, γ => γ
  | _, cons owner rest, γ => cons owner (rest.append γ)

/-- References whose owners are gone. -/
def detached : {Γ : List Type} → Refs Γ
  | [] => nil
  | _ :: _ => cons Schema.detached detached

end Refs

/-! ### Leaves -/

/-- The type of the values of a leaf. -/
def LeafType.Output : LeafType → Type
  | bool => Bool
  | number => Integer
  | instant => Instant
  | value => Tree
  | string | bytes | decimal | address | internalAddress | nonFungibleLocalId => String

/-- The schema of a leaf with values of their own type. -/
def LeafType.plain : (l : LeafType) → Schema l.Output
  | bool => Schema.bool
  | string => Schema.string
  | bytes => Schema.bytes
  | number => Schema.number
  | decimal => Schema.decimal
  | address => Schema.address
  | internalAddress => Schema.internalAddress
  | nonFungibleLocalId => Schema.nonFungibleLocalId
  | instant => Schema.instant
  | value => Schema.any

/-! ### Places -/

/-- Nested pairs of values of the listed types. -/
def Tuple : List Type → Type
  | [] => Unit
  | α :: αs => α × Tuple αs

/-- One schema for each of the listed types. -/
def Schemas : List Type → Type
  | [] => Unit
  | α :: αs => Schema α × Schemas αs

/-- One named schema for each of the listed types. -/
def NamedSchemas : List Type → Type
  | [] => Unit
  | α :: αs => (String × Schema α) × NamedSchemas αs

/-- The places of schemas of the listed types. -/
def Places.ofSchemas : {αs : List Type} → Schemas αs → Places (Tuple αs)
  | [], _ => .nil
  | _ :: _, (head, tail) => .cons head (ofSchemas tail)

/-- The named places of named schemas of the listed types. -/
def NamedPlaces.ofSchemas : {αs : List Type} → NamedSchemas αs →
    NamedPlaces (Tuple αs) (Tuple (αs.map Option))
  | [], _ => .nil
  | _ :: _, ((name, head), tail) => .cons name head (ofSchemas tail)

/-! ### Terms -/

mutual

/-- A schema as it is built, with references to owners in `Γ`, and below its
composites also to owners in `Δ`. -/
inductive SchemaTerm : List Type → List Type → Type → Type 1
  | leaf {Δ Γ : List Type} (l : LeafType) : SchemaTerm Δ Γ l.Output
  | payload {Δ Γ : List Type} {α : Type} (p : PayloadTerm (Δ ++ Γ) α) : SchemaTerm Δ Γ α
  | enum {Δ Γ : List Type} {α : Type} (variants : VariantTerms (Δ ++ Γ) α) :
      SchemaTerm Δ Γ (Choice α)
  | option {Δ Γ : List Type} {α : Type} (inner : SchemaTerm [] (Δ ++ Γ) α) :
      SchemaTerm Δ Γ (Option α)
  | array {Δ Γ : List Type} {α : Type} (element : SchemaTerm [] (Δ ++ Γ) α) :
      SchemaTerm Δ Γ (List α)
  | mapping {Δ Γ : List Type} {κ ν : Type} (key : SchemaTerm [] (Δ ++ Γ) κ)
      (value : SchemaTerm [] (Δ ++ Γ) ν) : SchemaTerm Δ Γ (List (κ × ν))
  | recursive {Δ Γ : List Type} {α : Type} (body : SchemaTerm (α :: Δ) Γ α) : SchemaTerm Δ Γ α
  | reference {Δ Γ : List Type} {α : Type} (x : Ref Γ α) : SchemaTerm Δ Γ α
  | boxed {Δ Γ : List Type} {α : Type} (s : SchemaTerm Δ Γ α) : SchemaTerm Δ Γ α
  | map {Δ Γ : List Type} {α β : Type} (f : α → β) (s : SchemaTerm Δ Γ α) : SchemaTerm Δ Γ β
  | tryMap {Δ Γ : List Type} {α β : Type} (f : α → Except String β) (s : SchemaTerm Δ Γ α) :
      SchemaTerm Δ Γ β

/-- A payload as it is built. -/
inductive PayloadTerm : List Type → Type → Type 1
  | struct {Γ : List Type} {α : Type} (fields : FieldTerms Γ α) :
      PayloadTerm Γ (List (String × α))
  | lenientStruct {Γ : List Type} {α : Type} (fields : FieldTerms Γ α) :
      PayloadTerm Γ (List (String × Option α))
  | tuple {Γ : List Type} {α : Type} (elements : ElementTerms Γ α) : PayloadTerm Γ (List α)
  | fixedStruct {Γ αs : List Type} (places : NamedPlaceTerms Γ αs) : PayloadTerm Γ (Tuple αs)
  | fixedLenientStruct {Γ αs : List Type} (places : NamedPlaceTerms Γ αs) :
      PayloadTerm Γ (Tuple (αs.map Option))
  | fixedTuple {Γ αs : List Type} (places : PlaceTerms Γ αs) : PayloadTerm Γ (Tuple αs)
  | boxed {Γ : List Type} {α : Type} (p : PayloadTerm Γ α) : PayloadTerm Γ α
  | map {Γ : List Type} {α β : Type} (f : α → β) (p : PayloadTerm Γ α) : PayloadTerm Γ β
  | tryMap {Γ : List Type} {α β : Type} (f : α → Except String β) (p : PayloadTerm Γ α) :
      PayloadTerm Γ β

/-- The declared fields of a struct. -/
inductive FieldTerms : List Type → Type → Type 1
  | nil {Γ : List Type} {α : Type} : FieldTerms Γ α
  | cons {Γ : List Type} {α : Type} (name : String) (head : SchemaTerm [] Γ α)
      (tail : FieldTerms Γ α) : FieldTerms Γ α

/-- The elements of a tuple. -/
inductive ElementTerms : List Type → Type → Type 1
  | nil {Γ : List Type} {α : Type} : ElementTerms Γ α
  | cons {Γ : List Type} {α : Type} (head : SchemaTerm [] Γ α) (tail : ElementTerms Γ α) :
      ElementTerms Γ α

/-- The variants of an enum. -/
inductive VariantTerms : List Type → Type → Type 1
  | nil {Γ : List Type} {α : Type} : VariantTerms Γ α
  | unit {Γ : List Type} {α : Type} (name : String) (tail : VariantTerms Γ α) : VariantTerms Γ α
  | new {Γ : List Type} {α : Type} (name : String) (head : PayloadTerm Γ α)
      (tail : VariantTerms Γ α) : VariantTerms Γ α

/-- The places of a tuple of differently typed parts. -/
inductive PlaceTerms : List Type → List Type → Type 1
  | nil {Γ : List Type} : PlaceTerms Γ []
  | cons {Γ αs : List Type} {α : Type} (head : SchemaTerm [] Γ α) (tail : PlaceTerms Γ αs) :
      PlaceTerms Γ (α :: αs)

/-- The named places of a struct of differently typed parts. -/
inductive NamedPlaceTerms : List Type → List Type → Type 1
  | nil {Γ : List Type} : NamedPlaceTerms Γ []
  | cons {Γ αs : List Type} {α : Type} (name : String) (head : SchemaTerm [] Γ α)
      (tail : NamedPlaceTerms Γ αs) : NamedPlaceTerms Γ (α :: αs)

end

/-! ### The schema of a term -/

/-- What a composite does with the schema of a part before it runs the part. -/
abbrev Handling := (α : Type) → Schema α → Schema α

/-- A composite runs its parts as they are. -/
def Handling.asIs : Handling := fun _ s => s

mutual

/-- The schema of a term whose composites handle their parts by `h`. -/
def SchemaTerm.interpret (h : Handling) :
    {Δ Γ : List Type} → {α : Type} → SchemaTerm Δ Γ α → Refs Δ → Refs Γ → Schema α
  | _, _, _, .leaf l, _, _ => l.plain
  | _, _, _, .payload p, δ, γ => (p.interpret h (δ.append γ)).toSchema
  | _, _, _, .enum variants, δ, γ => Schema.enum (variants.interpret h (δ.append γ))
  | _, _, _, .option inner, δ, γ => Schema.option (h _ (inner.interpret h .nil (δ.append γ)))
  | _, _, _, .array element, δ, γ => Schema.array (h _ (element.interpret h .nil (δ.append γ)))
  | _, _, _, .mapping key value, δ, γ =>
    Schema.mapping (h _ (key.interpret h .nil (δ.append γ)))
      (h _ (value.interpret h .nil (δ.append γ)))
  | _, _, _, .recursive body, δ, γ =>
    Schema.recursive fun self => body.interpret h (.cons self δ) γ
  | _, _, _, .reference x, _, γ => γ.get x
  | _, _, _, .boxed s, δ, γ => s.interpret h δ γ
  | _, _, _, .map f s, δ, γ => (s.interpret h δ γ).map f
  | _, _, _, .tryMap f s, δ, γ => (s.interpret h δ γ).tryMap f

/-- The payload of a term. -/
def PayloadTerm.interpret (h : Handling) :
    {Γ : List Type} → {α : Type} → PayloadTerm Γ α → Refs Γ → Payload α
  | _, _, .struct fields, γ => Payload.struct (fields.interpret h γ)
  | _, _, .lenientStruct fields, γ => Payload.lenientStruct (fields.interpret h γ)
  | _, _, .tuple elements, γ => Payload.tuple (elements.interpret h γ)
  | _, _, .fixedStruct places, γ => Payload.fixedStruct (.ofSchemas (places.interpret h γ))
  | _, _, .fixedLenientStruct places, γ =>
    Payload.fixedLenientStruct (.ofSchemas (places.interpret h γ))
  | _, _, .fixedTuple places, γ => Payload.fixedTuple (.ofSchemas (places.interpret h γ))
  | _, _, .boxed p, γ => p.interpret h γ
  | _, _, .map f p, γ => (p.interpret h γ).map f
  | _, _, .tryMap f p, γ => (p.interpret h γ).tryMap f

/-- The schemas of the fields of a struct. -/
def FieldTerms.interpret (h : Handling) :
    {Γ : List Type} → {α : Type} → FieldTerms Γ α → Refs Γ → List (String × Schema α)
  | _, _, .nil, _ => []
  | _, _, .cons name head tail, γ => (name, h _ (head.interpret h .nil γ)) :: tail.interpret h γ

/-- The schemas of the elements of a tuple. -/
def ElementTerms.interpret (h : Handling) :
    {Γ : List Type} → {α : Type} → ElementTerms Γ α → Refs Γ → List (Schema α)
  | _, _, .nil, _ => []
  | _, _, .cons head tail, γ => h _ (head.interpret h .nil γ) :: tail.interpret h γ

/-- The variants of an enum. -/
def VariantTerms.interpret (h : Handling) :
    {Γ : List Type} → {α : Type} → VariantTerms Γ α → Refs Γ → List (Variant α)
  | _, _, .nil, _ => []
  | _, _, .unit name tail, γ => .unit name :: tail.interpret h γ
  | _, _, .new name head tail, γ => .new name (head.interpret h γ) :: tail.interpret h γ

/-- The schemas of the places of a tuple. -/
def PlaceTerms.interpret (h : Handling) :
    {Γ αs : List Type} → PlaceTerms Γ αs → Refs Γ → Schemas αs
  | _, _, .nil, _ => ()
  | _, _, .cons head tail, γ => (h _ (head.interpret h .nil γ), tail.interpret h γ)

/-- The named schemas of the places of a struct. -/
def NamedPlaceTerms.interpret (h : Handling) :
    {Γ αs : List Type} → NamedPlaceTerms Γ αs → Refs Γ → NamedSchemas αs
  | _, _, .nil, _ => ()
  | _, _, .cons name head tail, γ =>
    ((name, h _ (head.interpret h .nil γ)), tail.interpret h γ)

end

/-- The schema of a term. -/
def SchemaTerm.schema {Δ Γ : List Type} {α : Type} (e : SchemaTerm Δ Γ α) (δ : Refs Δ)
    (γ : Refs Γ) : Schema α :=
  e.interpret .asIs δ γ

/-- The payload of a term. -/
def PayloadTerm.toPayload {Γ : List Type} {α : Type} (e : PayloadTerm Γ α) (γ : Refs Γ) :
    Payload α :=
  e.interpret .asIs γ

/-! ### Kinds -/

namespace Schema

variable {α β κ ν : Type}

@[simp] theorem kinds_map (f : α → β) (s : Schema α) : (s.map f).kinds = s.kinds := rfl

@[simp] theorem kinds_tryMap (f : α → Except String β) (s : Schema α) :
    (s.tryMap f).kinds = s.kinds := rfl

@[simp] theorem kinds_enum (variants : List (Variant α)) :
    (Schema.enum variants).kinds = .single .enum := rfl

@[simp] theorem kinds_option (inner : Schema α) : (Schema.option inner).kinds = .single .enum := rfl

@[simp] theorem kinds_array (element : Schema α) :
    (Schema.array element).kinds = .single .array := rfl

@[simp] theorem kinds_mapping (key : Schema κ) (value : Schema ν) :
    (Schema.mapping key value).kinds = .single .map := rfl

end Schema

end SborSchema
