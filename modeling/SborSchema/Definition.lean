/-
# Definitions

A definition gives a type a name and a version, says whether it is deprecated,
and may describe it. As JSON its type is the written form.

Key definitions: `Definition`, `Definition.toJson`.
-/
import SborSchema.Json
import SborSchema.TypeExpr.Compile

namespace SborSchema

/-- Where the values of a definition come from. -/
structure Origin where
  blueprint : Option String
  category : Option String
  package : Option String
deriving DecidableEq, Repr

/-- An origin of which nothing is known. -/
def Origin.unknown : Origin := ⟨none, none, none⟩

/-- A named and versioned type. -/
structure Definition where
  name : String
  version : Nat
  description : Option String
  deprecated : Bool
  origin : Origin
  type : TypeExpr

namespace Definition

/-- A definition without description and origin. -/
def plain (name : String) (version : Nat) (deprecated : Bool) (type : TypeExpr) : Definition where
  name
  version
  description := none
  deprecated
  origin := .unknown
  type

/-- The schema of the type. -/
def schema (d : Definition) : Schema Value := d.type.schema

end Definition

/-- An origin as JSON: what is unknown is left out. -/
def Origin.toJson (o : Origin) : Json :=
  .objectOf [Json.optional "blueprint" o.blueprint, Json.optional "category" o.category,
    Json.optional "package" o.package]

/-- A definition as JSON. -/
def Definition.toJson (d : Definition) : Json :=
  .objectOf [some ("name", .string d.name), some ("version", .ofNat d.version),
    Json.optional "description" d.description, some ("deprecated", .bool d.deprecated),
    some ("meta", d.origin.toJson), some ("type", .string d.type.text)]

end SborSchema
