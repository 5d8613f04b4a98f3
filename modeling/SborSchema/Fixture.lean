/-
# Recorded outcomes

A fixture records what a registered schema makes of a tree: the output as JSON,
or the sort of fault and the path of the error. Checking it lists each way in
which the actual outcome differs.

Key definitions: `Fixture`, `Fixture.ofJson?`, `Fixture.Mismatch`, `Fixture.check`.
-/
import SborSchema.Json.Record
import SborSchema.Options
import SborSchema.Registry
import SborSchema.Tree.Json

namespace SborSchema

/-- What is recorded of an error. -/
structure ExpectedError where
  kind : Option FaultKind
  path : Option (List String)
deriving DecidableEq, Repr

/-- A recorded outcome. -/
structure Fixture where
  description : Option String
  schema : String
  version : Option Nat
  value : Tree
  /-- The output. -/
  expected : Option Json
  expectedError : Option ExpectedError

/-- A way in which an outcome differs from a fixture. -/
inductive Fixture.Mismatch
  | notRegistered (schema : String)
  | output (found wanted : Json)
  | unexpectedError (error : ParseError)
  | noError (found : Value)
  | errorKind (found wanted : FaultKind)
  | errorPath (found wanted : List String)
  | unclear

namespace Fixture

/-- The written form of a list of texts. -/
def listText (texts : List String) : String :=
  "[" ++ Text.listed (texts.map Text.quote) ++ "]"

/-- The wording of a mismatch. -/
def Mismatch.message : Mismatch → String
  | notRegistered schema => "schema '" ++ schema ++ "' not registered"
  | output found wanted =>
    "output mismatch: got " ++ found.sorted.compact ++ ", want " ++ wanted.sorted.compact
  | unexpectedError error => "parse error: " ++ error.text
  | noError found => "expected an error, parsed " ++ found.text
  | errorKind found wanted => "error kind: got " ++ found.name ++ ", want " ++ wanted.name
  | errorPath found wanted => "error path: got " ++ listText found ++ ", want " ++ listText wanted
  | unclear => "fixture needs exactly one of expected / expectedError"

/-- The ways in which an error differs from what is recorded of it. -/
def checkError (wanted : ExpectedError) (e : ParseError) : List Mismatch :=
  ((wanted.kind.filter (· ≠ e.cause.kind)).map (.errorKind e.cause.kind)).toList ++
    ((wanted.path.filter (· ≠ e.path.texts)).map (.errorPath e.path.texts)).toList

/-- The ways in which an outcome differs from a fixture. -/
def compare (f : Fixture) (outcome : Except ParseError Value) : List Mismatch :=
  match f.expected, f.expectedError, outcome with
  | some wanted, none, .ok found =>
    if found.toJson.sameContent wanted then [] else [.output found.toJson wanted]
  | some _, none, .error e => [.unexpectedError e]
  | none, some _, .ok found => [.noError found]
  | none, some wanted, .error e => checkError wanted e
  | _, _, _ => [.unclear]

/-- The ways in which a registered schema differs from a fixture. -/
def check (registry : Registry) (options : ParseOptions) (f : Fixture) : List Mismatch :=
  match registry.get? f.schema f.version with
  | none => [.notRegistered f.schema]
  | some d => f.compare (d.schema.runWithin options.maxDepth f.value)

/-- What is recorded of an error, from its fields. -/
def errorOfFields? (kind path : Option Json) : Option ExpectedError := do
  return { kind := ← Json.orNull? FaultKind.ofJson? kind, path := ← Json.orNull? Json.texts? path }

/-- What a JSON value records of an error. -/
def errorOf? : Json → Option ExpectedError
  | .object members => do
    errorOfFields? (← Json.memberOnce "kind" members) (← Json.memberOnce "path" members)
  | .array [] => errorOfFields? none none
  | .array [kind] => errorOfFields? (some kind) none
  | .array [kind, path] => errorOfFields? (some kind) (some path)
  | _ => none

/-- A fixture, from its fields. -/
def ofFields? (description schema version value expected expectedError : Option Json) :
    Option Fixture := do
  return {
    description := ← Json.orNull? Json.text? description
    schema := ← Json.text? (← schema)
    version := ← Json.orNull? (Json.natBelow? (1 <<< 32)) version
    value := ← Tree.ofJson? (← value)
    expected := ← Json.orNull? some expected
    expectedError := ← Json.orNull? errorOf? expectedError }

/-- The fixture that a JSON value describes: an object, or an array of the fields in order. -/
def ofJson? : Json → Option Fixture
  | .object members => do
    ofFields? (← Json.memberOnce "description" members) (← Json.memberOnce "schema" members)
      (← Json.memberOnce "version" members) (← Json.memberOnce "value" members)
      (← Json.memberOnce "expected" members) (← Json.memberOnce "expectedError" members)
  | .array items =>
    if items.length ≤ 6 then
      ofFields? items[0]? items[1]? items[2]? items[3]? items[4]? items[5]?
    else none
  | _ => none

/-- What is wanted of the text of a fixture. -/
def shape : Json.Shape :=
  .record [("description", .whole), ("schema", .whole), ("version", .whole), ("value", .whole),
    ("expected", .whole), ("expectedError", .record [("kind", .whole), ("path", .whole)])]

/-- The fixture of a JSON text. -/
def ofText? (text : String) : Option Fixture := (Json.ofRecordText? shape text).bind ofJson?

end Fixture

end SborSchema
