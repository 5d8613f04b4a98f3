/-
# Definitions in documents

A document holds one definition: the first key that starts with `schema ` gives
its name, and the value at it the body. The fields of a body are read in the
order of the document, whatever their tags; fields that are not known are
passed over. The type is read once more before it is looked at. A text may
hold several documents, and those that are null do not count.

Key definitions: `Definition.ofYaml`, `Definition.allOfText`, `Definition.firstOfText`.
-/
import SborSchema.Definition
import SborSchema.Definition.Fault
import SborSchema.TypeExpr.Document
import SborSchema.Yaml.Document

namespace SborSchema.Definition

/-- The greatest version. -/
def greatestVersion : Nat := 1 <<< 32 - 1

/-- A text, whatever its tags. -/
def textOf (y : Yaml) : Except BodyFault String :=
  match y.untagged with
  | .string s => .ok s
  | other => .error (.wrongShape other .text)

/-- A text, or nothing for null itself. -/
def optionalTextOf : Yaml → Except BodyFault (Option String)
  | .null => .ok none
  | y => (textOf y).map some

/-- A truth value, whatever its tags. -/
def truthOf (y : Yaml) : Except BodyFault Bool :=
  match y.untagged with
  | .bool b => .ok b
  | other => .error (.wrongShape other .truthValue)

/-- A version, whatever its tags. -/
def versionOf (y : Yaml) : Except BodyFault Nat :=
  match y.untagged with
  | .number (.integer n) =>
    if 0 ≤ n ∧ n ≤ greatestVersion then .ok n.toNat else .error (.outsideRange n)
  | other => .error (.wrongShape other .word)

/-- The entries of a mapping, whatever its tags; null has none. -/
def entriesOf (wanted : FieldShape) (y : Yaml) : Except BodyFault (List (Yaml × Yaml)) :=
  match y.untagged with
  | .mapping entries => .ok entries
  | .null => .ok []
  | other => .error (.wrongShape other wanted)

/-- The name of a field, whatever its tags. -/
def fieldNameOf (key : Yaml) : Except BodyFault String :=
  match key.untagged with
  | .string s => .ok s
  | other => .error (.wrongShape other .fieldName)

/-- Reads a field into its place, unless that is taken. -/
def fill {α : Type} (name : String) (place : Option α) (value : Except BodyFault α) :
    Except BodyFault (Option α) :=
  match place with
  | some _ => .error (.repeated name)
  | none => value.map some

/-- The fields of an origin as far as they have been read. -/
structure OriginFields where
  blueprint : Option (Option String)
  category : Option (Option String)
  package : Option (Option String)

/-- Reads the fields of an origin one after the other. -/
def readOriginFields : List (Yaml × Yaml) → OriginFields → Except BodyFault OriginFields
  | [], f => .ok f
  | (key, value) :: rest, f => do
    let f ← match ← fieldNameOf key with
      | "blueprint" => do
        pure { f with blueprint := ← fill "blueprint" f.blueprint (optionalTextOf value) }
      | "category" => do
        pure { f with category := ← fill "category" f.category (optionalTextOf value) }
      | "package" => do
        pure { f with package := ← fill "package" f.package (optionalTextOf value) }
      | _ => pure f
    readOriginFields rest f

/-- The origin that a value describes. -/
def originOf (y : Yaml) : Except BodyFault Origin := do
  let f ← readOriginFields (← entriesOf .origin y) ⟨none, none, none⟩
  return ⟨f.blueprint.join, f.category.join, f.package.join⟩

/-- A type as the document has it, read once more. -/
def typeValueOf (y : Yaml) : Except BodyFault Yaml := y.reread.mapError fun _ => .repeatedKey

/-- The fields of a body as far as they have been read. -/
structure BodyFields where
  version : Option Nat
  description : Option (Option String)
  deprecated : Option Bool
  origin : Option Origin
  type : Option Yaml

/-- Reads the fields of a body one after the other. -/
def readBodyFields : List (Yaml × Yaml) → BodyFields → Except BodyFault BodyFields
  | [], f => .ok f
  | (key, value) :: rest, f => do
    let f ← match ← fieldNameOf key with
      | "version" => do pure { f with version := ← fill "version" f.version (versionOf value) }
      | "description" => do
        pure { f with description := ← fill "description" f.description (optionalTextOf value) }
      | "deprecated" => do
        pure { f with deprecated := ← fill "deprecated" f.deprecated (truthOf value) }
      | "meta" => do pure { f with origin := ← fill "meta" f.origin (originOf value) }
      | "type" => do pure { f with type := ← fill "type" f.type (typeValueOf value) }
      | _ => pure f
    readBodyFields rest f

/-- The body of a definition, with its type still as the document has it. -/
structure Body where
  version : Nat
  description : Option String
  deprecated : Bool
  origin : Origin
  type : Yaml

/-- The body that a value describes. Version and type have to be there. -/
def Body.ofYaml (y : Yaml) : Except BodyFault Body := do
  let f ← readBodyFields (← entriesOf .body y) ⟨none, none, none, none, none⟩
  match f.version, f.type with
  | none, _ => .error (.missing "version")
  | some _, none => .error (.missing "type")
  | some version, some type =>
    return { version, description := f.description.join, deprecated := f.deprecated.getD false
             origin := f.origin.getD .unknown, type }

/-- The word in front of the name of a definition. -/
def keyword : List Char := "schema ".toList

/-- The name of a definition that a key gives. -/
def nameOfKey? (key : Yaml) : Option String := do
  let text ← key.text?
  if keyword.isPrefixOf text.toList then
    return String.ofList (Text.trim (text.toList.drop keyword.length))
  else none

/-- The first entry that gives a name, by that name. -/
def namedEntry? : List (Yaml × Yaml) → Option (String × Yaml)
  | [] => none
  | (key, value) :: rest =>
    match nameOfKey? key with
    | some name => some (name, value)
    | none => namedEntry? rest

/-- The definition of a name and the value of its body. -/
def ofBody (name : String) (y : Yaml) : Except DefinitionFault Definition := do
  let body ← (Body.ofYaml y).mapError (.body name)
  let type ← (TypeExpr.ofYaml body.type).mapError (.type name)
  return { name, version := body.version, description := body.description
           deprecated := body.deprecated, origin := body.origin, type }

/-- The definition that a document describes. -/
def ofYaml : Yaml → Except DefinitionFault Definition
  | .mapping entries =>
    match namedEntry? entries with
    | none => .error .unnamed
    | some (name, body) => if name.isEmpty then .error .emptyName else ofBody name body
  | _ => .error .notMapping

/-- The definitions of documents in order; the first fault is reported. -/
def allOf : List (Except Yaml.Fault Yaml) → Except DefinitionFault (List Definition)
  | [] => .ok []
  | .error f :: _ => .error (.notYaml f)
  | .ok y :: rest =>
    if y.isNull then allOf rest
    else do
      let d ← ofYaml y
      let ds ← allOf rest
      return d :: ds

/-- The definitions of a text in order. -/
def allOfText (text : String) : Except DefinitionFault (List Definition) :=
  allOf (Yaml.documentsOf text)

/-- The first definition of a text, all of which has to be in order. -/
def firstOfText (text : String) : Except DefinitionFault Definition := do
  match ← allOfText text with
  | [] => .error .noDefinition
  | d :: _ => return d

end SborSchema.Definition
