/-
# Refused type expressions

A type expression is refused for one cause, at one place: the cause names what
was found, and the place is the fields, elements and variants that lead to it
from the outside in.

Key definitions: `TypeFault`, `TypePlace`, `TypeError`, `TypeError.message`.
-/
import SborSchema.TypeExpr
import SborSchema.Yaml

namespace SborSchema

/-- Why a part of a type expression is refused. -/
inductive TypeFault
  /-- A name that is no type. -/
  | unknownName (name : String)
  /-- A value that is neither a name nor a mapping. -/
  | notType (found : Yaml)
  /-- A key that names no composite because it is no text. -/
  | keyNotText (found : Yaml)
  /-- A mapping with another number of keys than one. -/
  | notSingle (keys : Nat)
  /-- A key that names no composite. -/
  | unknownComposite (name : String)
  /-- A map without the type of its keys or values. -/
  | missingPart (name : String)
  /-- A struct whose fields are no mapping. -/
  | structBody (found : Yaml)
  /-- A field whose name is no text. -/
  | fieldName (found : Yaml)
  /-- A tuple whose elements are no sequence. -/
  | tupleBody (found : Yaml)
  /-- An enum whose variants are no mapping. -/
  | enumBody (found : Yaml)
  /-- An enum without variants. -/
  | noVariants
  /-- A variant whose name is no text. -/
  | variantName (found : Yaml)
  /-- A payload that is no layout. -/
  | notLayout (type : TypeExpr)

/-- The wording of a cause. -/
def TypeFault.message : TypeFault → String
  | unknownName name => "unknown type: '" ++ name ++ "'"
  | notType found => "expected a type name or mapping, got " ++ found.debugText
  | keyNotText found => "composite type key must be a string, got " ++ found.debugText
  | notSingle keys =>
    "composite type must be a mapping with exactly one key, got " ++ Digits.text keys ++ " keys"
  | unknownComposite name => "unknown composite type: '" ++ name ++ "'"
  | missingPart name => "map is missing '" ++ name ++ "'"
  | structBody found => "struct body must be a mapping, got " ++ found.debugText
  | fieldName found => "field name must be a string, got " ++ found.debugText
  | tupleBody found => "tuple body must be a sequence, got " ++ found.debugText
  | enumBody found => "enum body must be a mapping, got " ++ found.debugText
  | noVariants => "enum must declare at least one variant"
  | variantName found => "variant name must be a string, got " ++ found.debugText
  | notLayout type => "payload must be a struct or tuple, got " ++ type.text

/-- A part of a type expression, as seen from the composite that holds it. -/
inductive TypePlace
  | field (name : String)
  | element (position : Nat)
  | variant (name : String)
deriving DecidableEq, Repr

/-- The written form of a place. -/
def TypePlace.text : TypePlace → String
  | field name => "field '" ++ name ++ "'"
  | element i => "element " ++ Digits.text i
  | variant name => "variant '" ++ name ++ "'"

/-- A refused type expression. -/
structure TypeError where
  /-- The places that lead to the refused part, outermost first. -/
  places : List TypePlace
  fault : TypeFault

namespace TypeError

/-- A cause at the outermost place. -/
def here (fault : TypeFault) : TypeError := ⟨[], fault⟩

/-- The error as seen from one composite further out. -/
def under (place : TypePlace) (e : TypeError) : TypeError := ⟨place :: e.places, e.fault⟩

/-- The places with a colon after each. -/
def lead (places : List TypePlace) : String := String.join (places.map fun p => p.text ++ ": ")

/-- The wording of an error. -/
def message (e : TypeError) : String := lead e.places ++ e.fault.message

end TypeError

end SborSchema
