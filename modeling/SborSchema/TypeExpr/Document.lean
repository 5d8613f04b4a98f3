/-
# Type expressions in documents

A type expression is written as a name, or as a mapping whose one key says which
composite it is and whose value holds the parts. The fields of a struct and the
variants of an enum are mappings in order, the elements of a tuple a sequence,
and a map has its key and value types under two keys. Null stands for no fields
and no elements, and for a variant without payload.

Key definitions: `TypeExpr.ofYaml`.
-/
import SborSchema.TypeExpr.Name

namespace SborSchema.TypeExpr

/-- The layout of a payload; any other type is refused. -/
def layoutOf : TypeExpr → Except TypeError Layout
  | layout l => .ok l
  | type => .error (.here (.notLayout type))

/-- The payload of a variant whose value describes a type, unless it is null. -/
def payloadOf (value : Yaml) (type : Except TypeError TypeExpr) :
    Except TypeError (Option Layout) :=
  if value.isNull then .ok none
  else do
    let l ← layoutOf (← type)
    return some l

mutual

/-- The type that a value describes. -/
def ofYaml : Yaml → Except TypeError TypeExpr
  | .string name => (ofName name).mapError .here
  | .mapping entries => compositeOf entries
  | other => .error (.here (.notType other))

/-- The composite of a mapping with one key. -/
def compositeOf : List (Yaml × Yaml) → Except TypeError TypeExpr
  | [(key, body)] =>
    match key.text? with
    | none => .error (.here (.keyNotText key))
    | some "struct" => do return struct (← fieldsOf body)
    | some "struct_allowing_missing" => do return lenientStruct (← fieldsOf body)
    | some "tuple" => do return tuple (← elementsOf body)
    | some "enum" => do return enum (← variantsOf body)
    | some "option" => do return option (← ofYaml body)
    | some "array" => do return array (← ofYaml body)
    | some "map" => do
      let key ← partOf "key" body
      let value ← partOf "value" body
      return map key value
    | some other => .error (.here (.unknownComposite other))
  | entries => .error (.here (.notSingle entries.length))

/-- The fields of a struct. -/
def fieldsOf : Yaml → Except TypeError (List (String × TypeExpr))
  | .null => .ok []
  | .mapping entries => fieldEntries entries
  | other => .error (.here (.structBody other))

/-- The fields of the entries of a mapping. -/
def fieldEntries : List (Yaml × Yaml) → Except TypeError (List (String × TypeExpr))
  | [] => .ok []
  | (key, value) :: rest => do
    match key.text? with
    | none => .error (.here (.fieldName key))
    | some name =>
      let type ← (ofYaml value).mapError (.under (.field name))
      let fields ← fieldEntries rest
      return (name, type) :: fields

/-- The elements of a tuple. -/
def elementsOf : Yaml → Except TypeError (List TypeExpr)
  | .null => .ok []
  | .sequence items => elementItems items 0
  | other => .error (.here (.tupleBody other))

/-- The elements of the items of a sequence; the first stands at position `i`. -/
def elementItems : List Yaml → Nat → Except TypeError (List TypeExpr)
  | [], _ => .ok []
  | item :: items, i => do
    let type ← (ofYaml item).mapError (.under (.element i))
    let types ← elementItems items (i + 1)
    return type :: types

/-- The variants of an enum. -/
def variantsOf : Yaml → Except TypeError (List (String × Option Layout))
  | .mapping [] => .error (.here .noVariants)
  | .mapping (entry :: entries) => variantEntries (entry :: entries)
  | other => .error (.here (.enumBody other))

/-- The variants of the entries of a mapping. -/
def variantEntries : List (Yaml × Yaml) → Except TypeError (List (String × Option Layout))
  | [] => .ok []
  | (key, value) :: rest => do
    match key.text? with
    | none => .error (.here (.variantName key))
    | some name =>
      let payload ← (payloadOf value (ofYaml value)).mapError (.under (.variant name))
      let variants ← variantEntries rest
      return (name, payload) :: variants

/-- The type under a key of a mapping, below its tags. -/
def partOf (name : String) : Yaml → Except TypeError TypeExpr
  | .mapping entries => partAt name entries
  | .tagged _ content => partOf name content
  | _ => .error (.here (.missingPart name))

/-- The type under a key of the entries of a mapping. -/
def partAt (name : String) : List (Yaml × Yaml) → Except TypeError TypeExpr
  | [] => .error (.here (.missingPart name))
  | (key, value) :: rest => if key.isText name then ofYaml value else partAt name rest

end

end SborSchema.TypeExpr
