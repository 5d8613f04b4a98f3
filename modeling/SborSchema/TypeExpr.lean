/-
# Type expressions

A type expression describes a schema as data: a named leaf, a layout of fields
(a struct or a tuple), an enum of variants whose payloads are layouts, an
option, a map or an array. It has a written form, in which a layout drops its
leading word when it stands as the payload of a variant.

Key definitions: `LeafType`, `TypeExpr`, `Layout`, `TypeExpr.text`.
-/
import SborSchema.Text.Listed

namespace SborSchema

/-- The types without parts. -/
inductive LeafType
  | bool
  | string
  | bytes
  | number
  | decimal
  | address
  | internalAddress
  | nonFungibleLocalId
  | instant
  | value
deriving DecidableEq, Repr

namespace LeafType

/-- Every leaf type, in order. -/
def all : List LeafType :=
  [bool, string, bytes, number, decimal, address, internalAddress, nonFungibleLocalId, instant,
    value]

/-- The name of a leaf type. -/
def name : LeafType → String
  | bool => "bool"
  | string => "string"
  | bytes => "bytes"
  | number => "number"
  | decimal => "decimal"
  | address => "address"
  | internalAddress => "internal_address"
  | nonFungibleLocalId => "non_fungible_local_id"
  | instant => "instant"
  | value => "value"

/-- The leaf type of a given name. -/
def ofName? (name : String) : Option LeafType := all.find? (·.name == name)

theorem ofName?_name (l : LeafType) : ofName? l.name = some l := by
  cases l <;> decide

end LeafType

mutual

/-- A description of a schema. -/
inductive TypeExpr
  | leaf (type : LeafType)
  | layout (layout : Layout)
  | enum (variants : List (String × Option Layout))
  | option (inner : TypeExpr)
  | map (key value : TypeExpr)
  | array (element : TypeExpr)

/-- A description of a list of fields, by name or by position. -/
inductive Layout
  | struct (allowMissing : Bool) (fields : List (String × TypeExpr))
  | tuple (elements : List TypeExpr)

end

namespace TypeExpr

/-- The type of a struct whose fields must all be there. -/
def struct (fields : List (String × TypeExpr)) : TypeExpr := layout (.struct false fields)

/-- The type of a struct whose fields may be absent. -/
def lenientStruct (fields : List (String × TypeExpr)) : TypeExpr := layout (.struct true fields)

/-- The type of a tuple. -/
def tuple (elements : List TypeExpr) : TypeExpr := layout (.tuple elements)

end TypeExpr

/-- The word in front of a layout that stands by itself. -/
def Layout.word : Layout → String
  | struct false _ => "struct"
  | struct true _ => "struct_allowing_missing"
  | tuple _ => "tuple"

/-- The mark in front of a layout that stands as a payload. -/
def Layout.mark : Layout → String
  | struct true _ => "?"
  | _ => ""

mutual

/-- The written form of a type. -/
def TypeExpr.text : TypeExpr → String
  | .leaf l => l.name
  | .layout l => l.word ++ l.body
  | .enum variants => "enum\x7b" ++ " | ".intercalate (variantTexts variants) ++ "\x7d"
  | .option inner => "option<" ++ inner.text ++ ">"
  | .map key value => "map<" ++ key.text ++ ", " ++ value.text ++ ">"
  | .array element => element.text ++ "[]"

/-- The fields of a layout between their brackets. -/
def Layout.body : Layout → String
  | .struct _ fields => "\x7b" ++ Text.listed (fieldTexts fields) ++ "\x7d"
  | .tuple elements => "(" ++ Text.listed (elementTexts elements) ++ ")"

/-- The written forms of the fields of a struct. -/
def fieldTexts : List (String × TypeExpr) → List String
  | [] => []
  | (name, type) :: rest => (name ++ ": " ++ type.text) :: fieldTexts rest

/-- The written forms of the elements of a tuple. -/
def elementTexts : List TypeExpr → List String
  | [] => []
  | type :: rest => type.text :: elementTexts rest

/-- The written forms of the variants of an enum. -/
def variantTexts : List (String × Option Layout) → List String
  | [] => []
  | (name, none) :: rest => name :: variantTexts rest
  | (name, some l) :: rest => (name ++ l.mark ++ l.body) :: variantTexts rest

end

end SborSchema
