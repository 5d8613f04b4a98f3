/-
# Readings of recursion

A recursive term has an owner and a body in which references to the owner
stand. Its schema refers to itself; but a term may also be read with owners
solved in another way, which gives a schema for every body (`Solving`). Above
all, each body can be put around itself a number of times, that of a nested
owner too, with anything in place of the references that are left
(`Solving.unfolding`): then no part of the schema refers to itself.

Key definitions: `Solving`, `Solving.cyclic`, `Solving.unfolding`, `SchemaTerm.read`,
`Solving.KeepsKinds`.
Key theorems: `SchemaTerm.interpret_eq_read`, `PayloadTerm.interpret_eq_read`,
`SchemaTerm.kinds_read`.
-/
import SborSchema.Proofs.Schema.Term

namespace SborSchema

/-- What an owner is read as, given what its body makes of the references to it. -/
abbrev Solving := (α : Type) → (Schema α → Schema α) → Schema α

/-- The owner refers to itself. -/
def Solving.cyclic : Solving := fun _ body => Schema.recursive body

/-- The owner is its body put around itself `n` times, with `fill` in place of the
references that are left. -/
def Solving.unfolding (n : Nat) (fill : Solving) : Solving :=
  fun α body => Schema.unfold body (fill α body) n

mutual

/-- The schema of a term whose composites handle their parts by `h` and whose owners are
solved by `σ`. -/
def SchemaTerm.read (h : Handling) (σ : Solving) :
    {Δ Γ : List Type} → {α : Type} → SchemaTerm Δ Γ α → Refs Δ → Refs Γ → Schema α
  | _, _, _, .leaf l, _, _ => l.plain
  | _, _, _, .payload p, δ, γ => (p.read h σ (δ.append γ)).toSchema
  | _, _, _, .enum variants, δ, γ => Schema.enum (variants.read h σ (δ.append γ))
  | _, _, _, .option inner, δ, γ => Schema.option (h _ (inner.read h σ .nil (δ.append γ)))
  | _, _, _, .array element, δ, γ => Schema.array (h _ (element.read h σ .nil (δ.append γ)))
  | _, _, _, .mapping key value, δ, γ =>
    Schema.mapping (h _ (key.read h σ .nil (δ.append γ))) (h _ (value.read h σ .nil (δ.append γ)))
  | _, _, _, .recursive body, δ, γ => σ _ fun self => body.read h σ (.cons self δ) γ
  | _, _, _, .reference x, _, γ => γ.get x
  | _, _, _, .boxed s, δ, γ => s.read h σ δ γ
  | _, _, _, .map f s, δ, γ => (s.read h σ δ γ).map f
  | _, _, _, .tryMap f s, δ, γ => (s.read h σ δ γ).tryMap f

/-- The payload of a term. -/
def PayloadTerm.read (h : Handling) (σ : Solving) :
    {Γ : List Type} → {α : Type} → PayloadTerm Γ α → Refs Γ → Payload α
  | _, _, .struct fields, γ => Payload.struct (fields.read h σ γ)
  | _, _, .lenientStruct fields, γ => Payload.lenientStruct (fields.read h σ γ)
  | _, _, .tuple elements, γ => Payload.tuple (elements.read h σ γ)
  | _, _, .fixedStruct places, γ => Payload.fixedStruct (.ofSchemas (places.read h σ γ))
  | _, _, .fixedLenientStruct places, γ =>
    Payload.fixedLenientStruct (.ofSchemas (places.read h σ γ))
  | _, _, .fixedTuple places, γ => Payload.fixedTuple (.ofSchemas (places.read h σ γ))
  | _, _, .boxed p, γ => p.read h σ γ
  | _, _, .map f p, γ => (p.read h σ γ).map f
  | _, _, .tryMap f p, γ => (p.read h σ γ).tryMap f

/-- The schemas of the fields of a struct. -/
def FieldTerms.read (h : Handling) (σ : Solving) :
    {Γ : List Type} → {α : Type} → FieldTerms Γ α → Refs Γ → List (String × Schema α)
  | _, _, .nil, _ => []
  | _, _, .cons name head tail, γ => (name, h _ (head.read h σ .nil γ)) :: tail.read h σ γ

/-- The schemas of the elements of a tuple. -/
def ElementTerms.read (h : Handling) (σ : Solving) :
    {Γ : List Type} → {α : Type} → ElementTerms Γ α → Refs Γ → List (Schema α)
  | _, _, .nil, _ => []
  | _, _, .cons head tail, γ => h _ (head.read h σ .nil γ) :: tail.read h σ γ

/-- The variants of an enum. -/
def VariantTerms.read (h : Handling) (σ : Solving) :
    {Γ : List Type} → {α : Type} → VariantTerms Γ α → Refs Γ → List (Variant α)
  | _, _, .nil, _ => []
  | _, _, .unit name tail, γ => .unit name :: tail.read h σ γ
  | _, _, .new name head tail, γ => .new name (head.read h σ γ) :: tail.read h σ γ

/-- The schemas of the places of a tuple. -/
def PlaceTerms.read (h : Handling) (σ : Solving) :
    {Γ αs : List Type} → PlaceTerms Γ αs → Refs Γ → Schemas αs
  | _, _, .nil, _ => ()
  | _, _, .cons head tail, γ => (h _ (head.read h σ .nil γ), tail.read h σ γ)

/-- The named schemas of the places of a struct. -/
def NamedPlaceTerms.read (h : Handling) (σ : Solving) :
    {Γ αs : List Type} → NamedPlaceTerms Γ αs → Refs Γ → NamedSchemas αs
  | _, _, .nil, _ => ()
  | _, _, .cons name head tail, γ => ((name, h _ (head.read h σ .nil γ)), tail.read h σ γ)

end

/-! ### The usual reading -/

section Cyclic

variable {h : Handling}

mutual

/-- A term is usually read with owners that refer to themselves. -/
theorem SchemaTerm.interpret_eq_read : ∀ {Δ Γ : List Type} {α : Type} (e : SchemaTerm Δ Γ α)
    (δ : Refs Δ) (γ : Refs Γ), e.interpret h δ γ = e.read h .cyclic δ γ
  | _, _, _, .leaf _, _, _ | _, _, _, .reference _, _, _ => by
    simp only [SchemaTerm.interpret, SchemaTerm.read]
  | _, _, _, .payload p, _, _ => by
    simp only [SchemaTerm.interpret, SchemaTerm.read, p.interpret_eq_read]
  | _, _, _, .enum vs, _, _ => by
    simp only [SchemaTerm.interpret, SchemaTerm.read, vs.interpret_eq_read]
  | _, _, _, .option e, _, _ | _, _, _, .array e, _, _ | _, _, _, .boxed e, _, _
  | _, _, _, .map _ e, _, _ | _, _, _, .tryMap _ e, _, _ => by
    simp only [SchemaTerm.interpret, SchemaTerm.read, e.interpret_eq_read]
  | _, _, _, .mapping key value, _, _ => by
    simp only [SchemaTerm.interpret, SchemaTerm.read, key.interpret_eq_read,
      value.interpret_eq_read]
  | _, _, _, .recursive body, _, _ => by
    simp only [SchemaTerm.interpret, SchemaTerm.read, body.interpret_eq_read, Solving.cyclic]

/-- A payload is usually read with owners that refer to themselves. -/
theorem PayloadTerm.interpret_eq_read : ∀ {Γ : List Type} {α : Type} (e : PayloadTerm Γ α)
    (γ : Refs Γ), e.interpret h γ = e.read h .cyclic γ
  | _, _, .struct fields, _ | _, _, .lenientStruct fields, _ => by
    simp only [PayloadTerm.interpret, PayloadTerm.read, fields.interpret_eq_read]
  | _, _, .tuple elements, _ => by
    simp only [PayloadTerm.interpret, PayloadTerm.read, elements.interpret_eq_read]
  | _, _, .fixedStruct places, _ | _, _, .fixedLenientStruct places, _
  | _, _, .fixedTuple places, _ => by
    simp only [PayloadTerm.interpret, PayloadTerm.read, places.interpret_eq_read]
  | _, _, .boxed p, _ | _, _, .map _ p, _ | _, _, .tryMap _ p, _ => by
    simp only [PayloadTerm.interpret, PayloadTerm.read, p.interpret_eq_read]

theorem FieldTerms.interpret_eq_read : ∀ {Γ : List Type} {α : Type} (e : FieldTerms Γ α)
    (γ : Refs Γ), e.interpret h γ = e.read h .cyclic γ
  | _, _, .nil, _ => rfl
  | _, _, .cons _ head tail, _ => by
    simp only [FieldTerms.interpret, FieldTerms.read, head.interpret_eq_read,
      tail.interpret_eq_read]

theorem ElementTerms.interpret_eq_read : ∀ {Γ : List Type} {α : Type} (e : ElementTerms Γ α)
    (γ : Refs Γ), e.interpret h γ = e.read h .cyclic γ
  | _, _, .nil, _ => rfl
  | _, _, .cons head tail, _ => by
    simp only [ElementTerms.interpret, ElementTerms.read, head.interpret_eq_read,
      tail.interpret_eq_read]

theorem VariantTerms.interpret_eq_read : ∀ {Γ : List Type} {α : Type} (e : VariantTerms Γ α)
    (γ : Refs Γ), e.interpret h γ = e.read h .cyclic γ
  | _, _, .nil, _ => rfl
  | _, _, .unit _ tail, _ => by
    simp only [VariantTerms.interpret, VariantTerms.read, tail.interpret_eq_read]
  | _, _, .new _ head tail, _ => by
    simp only [VariantTerms.interpret, VariantTerms.read, head.interpret_eq_read,
      tail.interpret_eq_read]

theorem PlaceTerms.interpret_eq_read : ∀ {Γ αs : List Type} (e : PlaceTerms Γ αs) (γ : Refs Γ),
    e.interpret h γ = e.read h .cyclic γ
  | _, _, .nil, _ => rfl
  | _, _, .cons head tail, _ => by
    simp only [PlaceTerms.interpret, PlaceTerms.read, head.interpret_eq_read,
      tail.interpret_eq_read]
    rfl

theorem NamedPlaceTerms.interpret_eq_read : ∀ {Γ αs : List Type} (e : NamedPlaceTerms Γ αs)
    (γ : Refs Γ), e.interpret h γ = e.read h .cyclic γ
  | _, _, .nil, _ => rfl
  | _, _, .cons _ head tail, _ => by
    simp only [NamedPlaceTerms.interpret, NamedPlaceTerms.read, head.interpret_eq_read,
      tail.interpret_eq_read]
    rfl

end

end Cyclic

/-! ### Kinds -/

/-- An owner accepts the kinds of its body around something. -/
def Solving.KeepsKinds (σ : Solving) : Prop :=
  ∀ {α : Type} (B : Schema α → Schema α), ∃ s, (σ α B).kinds = (B s).kinds

theorem Solving.cyclic_keepsKinds : Solving.cyclic.KeepsKinds := fun _ => ⟨Schema.detached, rfl⟩

/-- One unfolding is enough for the kinds. -/
theorem Solving.unfolding_keepsKinds (n : Nat) (fill : Solving) :
    (Solving.unfolding (n + 1) fill).KeepsKinds :=
  fun B => ⟨Schema.unfold B (fill _ B) n, rfl⟩

section Kinds

variable {h : Handling} {σ : Solving}

/-- A payload accepts tuple nodes. -/
theorem PayloadTerm.kinds_read : ∀ {Γ : List Type} {α : Type} (e : PayloadTerm Γ α)
    (γ : Refs Γ), (e.read h σ γ).kinds = .single .tuple
  | _, _, .struct _, _ => rfl
  | _, _, .lenientStruct _, _ => rfl
  | _, _, .tuple _, _ => rfl
  | _, _, .fixedStruct _, _ => rfl
  | _, _, .fixedLenientStruct _, _ => rfl
  | _, _, .fixedTuple _, _ => rfl
  | _, _, .boxed p, γ => p.kinds_read γ
  | _, _, .map _ p, γ => p.kinds_read γ
  | _, _, .tryMap _ p, γ => p.kinds_read γ

/-- The kinds of a term do not hang on the owners it refers to below its composites. -/
theorem SchemaTerm.kinds_read (hσ : σ.KeepsKinds) : ∀ {Δ Γ : List Type} {α : Type}
    (e : SchemaTerm Δ Γ α) (δ δ' : Refs Δ) (γ : Refs Γ),
    (e.read h σ δ γ).kinds = (e.read h σ δ' γ).kinds
  | _, _, _, .leaf _, _, _, _ => by simp only [read]
  | _, _, _, .payload p, _, _, _ => by simp only [read, p.kinds_read]
  | _, _, _, .enum _, _, _, _ => by simp only [read, Schema.kinds_enum]
  | _, _, _, .option _, _, _, _ => by simp only [read, Schema.kinds_option]
  | _, _, _, .array _, _, _, _ => by simp only [read, Schema.kinds_array]
  | _, _, _, .mapping _ _, _, _, _ => by simp only [read, Schema.kinds_mapping]
  | _, _, _, .recursive body, δ, δ', γ => by
    obtain ⟨s, hs⟩ := hσ fun self => body.read h σ (.cons self δ) γ
    obtain ⟨s', hs'⟩ := hσ fun self => body.read h σ (.cons self δ') γ
    simp only [read, hs, hs']
    exact body.kinds_read hσ _ _ γ
  | _, _, _, .reference _, _, _, _ => by simp only [read]
  | _, _, _, .boxed s, δ, δ', γ => by simp only [read, s.kinds_read hσ δ δ' γ]
  | _, _, _, .map _ s, δ, δ', γ => by simp only [read, Schema.kinds_map, s.kinds_read hσ δ δ' γ]
  | _, _, _, .tryMap _ s, δ, δ', γ => by
    simp only [read, Schema.kinds_tryMap, s.kinds_read hσ δ δ' γ]

end Kinds

end SborSchema
