/-
# The schema of a type expression

Each part of a type expression becomes the schema of its name, and what it
parses becomes the matching case of a value.

Key definitions: `LeafType.schema`, `TypeExpr.schema`, `Layout.payload`.
-/
import SborSchema.Schema.Fixpoint
import SborSchema.Schema.Repeated
import SborSchema.Schema.Scalar
import SborSchema.Schema.Sum
import SborSchema.TypeExpr
import SborSchema.Value

namespace SborSchema

/-- The schema of a leaf type. -/
def LeafType.schema : LeafType → Schema Value
  | bool => Schema.bool.map .bool
  | string => Schema.string.map .string
  | bytes => Schema.bytes.map .bytes
  | number => Schema.number.map .integer
  | decimal => Schema.decimal.map .decimal
  | address => Schema.address.map .address
  | internalAddress => Schema.internalAddress.map .internalAddress
  | nonFungibleLocalId => Schema.nonFungibleLocalId.map .nonFungibleLocalId
  | instant => Schema.instant.map .timestamp
  | value => Schema.any.map .raw

/-- The record of a lenient struct: what is absent is the missing value. -/
def Value.lenientRecordOf (fields : List (String × Option Value)) : Value :=
  recordOf (fields.map fun f => (f.1, f.2.getD .missing))

/-- The value of a chosen variant. -/
def Value.ofChoice (c : Choice Value) : Value := .enum c.variant c.value

mutual

/-- The schema of a type. -/
def TypeExpr.schema : TypeExpr → Schema Value
  | .leaf l => l.schema
  | .layout l => l.payload.toSchema
  | .enum variants => (Schema.enum (variantSchemas variants)).map Value.ofChoice
  | .option inner => (Schema.option inner.schema).map .option
  | .map key value => (Schema.mapping key.schema value.schema).map .map
  | .array element => (Schema.array element.schema).map .array

/-- The payload of a layout. -/
def Layout.payload : Layout → Payload Value
  | .struct false fields => (Payload.struct (fieldSchemas fields)).map Value.recordOf
  | .struct true fields =>
    (Payload.lenientStruct (fieldSchemas fields)).map Value.lenientRecordOf
  | .tuple elements => (Payload.tuple (elementSchemas elements)).map .tuple

/-- The schemas of the fields of a struct. -/
def fieldSchemas : List (String × TypeExpr) → List (String × Schema Value)
  | [] => []
  | (name, type) :: rest => (name, type.schema) :: fieldSchemas rest

/-- The schemas of the elements of a tuple. -/
def elementSchemas : List TypeExpr → List (Schema Value)
  | [] => []
  | type :: rest => type.schema :: elementSchemas rest

/-- The variants of an enum. -/
def variantSchemas : List (String × Option Layout) → List (Variant Value)
  | [] => []
  | (name, none) :: rest => ⟨name, none⟩ :: variantSchemas rest
  | (name, some l) :: rest => ⟨name, some l.payload⟩ :: variantSchemas rest

end

end SborSchema
