/-
# Enums and options

An enum schema goes by the name of the variant: the first declared variant of
that name reads the fields of the node. A unit variant has no fields. An option
is the enum of a unit `None` and a `Some` with one field.

Key definitions: `Variant`, `Choice`, `Variant.resolve`, `Schema.enum`, `Schema.option`.
-/
import SborSchema.Schema.Places
import SborSchema.Text.Listed
import SborSchema.Text.Quoted

namespace SborSchema

variable {α β : Type}

/-- A declared variant; one without a payload is a unit variant. -/
structure Variant (α : Type) where
  name : String
  payload : Option (Payload α)

namespace Variant

/-- A variant without fields. -/
def unit (name : String) : Variant α := ⟨name, none⟩

/-- A variant whose fields a payload reads. -/
def new (name : String) (payload : Payload α) : Variant α := ⟨name, some payload⟩

/-- Whether the variant has no fields. -/
def isUnit (v : Variant α) : Bool := v.payload.isNone

/-- The written form of a variant. -/
def debugText (v : Variant α) : String :=
  "Variant \x7b name: " ++ Text.quote v.name ++ ", unit: " ++
    (if v.isUnit then "true" else "false") ++ " \x7d"

/-- The written form of a list of variants. -/
def listText (variants : List (Variant α)) : String :=
  "[" ++ Text.listed (variants.map debugText) ++ "]"

end Variant

/-- A variant that a tree chose, with the value of its payload unless it is a unit. -/
structure Choice (α : Type) where
  variant : String
  value : Option α
deriving DecidableEq, Repr

/-- Applies a function to the value of the payload. -/
def Choice.map (f : α → β) (c : Choice α) : Choice β := ⟨c.variant, c.value.map f⟩

/-- The declared variant that a node names, and the fields of the node. -/
def Variant.resolve (variants : List (Variant α)) (t : Tree) (p : Path) :
    Except ParseError (Variant α × List Tree) :=
  match t with
  | .enum _ _ name fields =>
    match name.bind fun name => variants.find? (·.name == name) with
    | none => .error ⟨.unknownVariant name (variants.map (·.name)), p⟩
    | some v =>
      if v.isUnit && !fields.isEmpty then .error ⟨.unitPayload v.name fields.length, p⟩
      else .ok (v, fields)
  | t => .error (wrongKind (.single .enum) t p)

namespace Schema

/-- An enum of declared variants. -/
def enum (variants : List (Variant α)) : Schema (Choice α) where
  kinds := .single .enum
  validate t p := do
    let (v, fields) ← Variant.resolve variants t p
    match v.payload with
    | some payload => payload.validateFields fields (p.field v.name)
    | none => .ok ()
  parse t p := do
    let (v, fields) ← Variant.resolve variants t p
    match v.payload with
    | some payload =>
      let a ← payload.parseFields fields (p.field v.name)
      return ⟨v.name, some a⟩
    | none => return ⟨v.name, none⟩

/-- The two variants of an option. -/
def optionVariants (inner : Schema α) : List (Variant α) :=
  [.unit "None", .new "Some" ((Payload.fixedTuple (.cons inner .nil)).map Prod.fst)]

/-- An option of what `inner` accepts. -/
def option (inner : Schema α) : Schema (Option α) where
  kinds := (enum (optionVariants inner)).kinds
  validate := (enum (optionVariants inner)).validate
  parse t p := do
    let c ← (enum (optionVariants inner)).parse t p
    return c.value

end Schema

end SborSchema
