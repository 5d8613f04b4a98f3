/-
# Refused definitions

A document may fail to be YAML, to name a definition, to have the body of one,
or to describe a type. Each cause keeps what its message names.

Key definitions: `BodyFault`, `DefinitionFault`, `DefinitionFault.message`.
-/
import SborSchema.TypeExpr.Fault

namespace SborSchema

/-- What a field of a body has to be. -/
inductive FieldShape
  | word
  | text
  | truthValue
  | body
  | origin
  | fieldName
deriving DecidableEq, Repr

/-- The wording of what a field has to be. -/
def FieldShape.wording : FieldShape → String
  | word => "u32"
  | text => "a string"
  | truthValue => "a boolean"
  | body => "struct DefinitionRaw"
  | origin => "struct MetaRaw"
  | fieldName => "field identifier"

/-- Why the body of a definition is refused. -/
inductive BodyFault
  /-- A value of another shape. -/
  | wrongShape (found : Yaml) (wanted : FieldShape)
  /-- A version outside the range of 32 bits. -/
  | outsideRange (n : Int)
  /-- A field that is given twice. -/
  | repeated (field : String)
  /-- A key that is given twice inside the type. -/
  | repeatedKey
  /-- A field that has to be there. -/
  | missing (field : String)

/-- The wording of a value that was found in place of another. -/
def Yaml.shapeText : Yaml → String
  | .null => "unit value"
  | .bool b => "boolean `" ++ (if b then "true" else "false") ++ "`"
  | .number (.integer n) => "integer `" ++ Digits.text n ++ "`"
  | .number (.float x) => "floating point `" ++ x.positionalText ++ "`"
  | .string s => "string " ++ Text.quote s
  | .sequence _ => "sequence"
  | .mapping _ => "map"
  | .tagged _ content => content.shapeText

/-- The wording of a cause. -/
def BodyFault.message : BodyFault → String
  | wrongShape found wanted =>
    "invalid type: " ++ found.shapeText ++ ", expected " ++ wanted.wording
  | outsideRange n => "invalid value: integer `" ++ Digits.text n ++ "`, expected u32"
  | repeated field => "duplicate field `" ++ field ++ "`"
  | repeatedKey => "duplicate entry in YAML map"
  | missing field => "missing field `" ++ field ++ "`"

/-- Why a document is no definition. -/
inductive DefinitionFault
  | notYaml (fault : Yaml.Fault)
  | notMapping
  | unnamed
  | emptyName
  | body (name : String) (fault : BodyFault)
  | type (name : String) (error : TypeError)
  | noDefinition

/-- The wording of a cause. -/
def DefinitionFault.message : DefinitionFault → String
  | notYaml fault => fault.message
  | notMapping => "schema definition must be a YAML mapping"
  | unnamed => "missing 'schema <Name>' key"
  | emptyName => "schema name is empty"
  | body name fault => "schema '" ++ name ++ "': " ++ fault.message
  | type name error => "schema '" ++ name ++ "': " ++ error.message
  | noDefinition => "empty schema definition file"

end SborSchema
