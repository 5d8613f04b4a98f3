/-
# Options of a parse

How deep a tree may be, and what a parse of many trees does about those that
are refused. Both are read from JSON: the fields of an object by name or those
of an array by place, and a mode by its name, by itself or as the one member of
an object.

Key definitions: `ParseOptions`, `ErrorMode`, `ParseOptions.ofJson?`, `ErrorMode.ofJson?`,
`FaultKind.ofJson?`.
-/
import SborSchema.Json.Decode
import SborSchema.ParseError

namespace SborSchema

/-- The options of a parse. -/
structure ParseOptions where
  /-- The depth of the deepest tree that is accepted. -/
  maxDepth : Nat
deriving DecidableEq, Repr

/-- What is done about trees that are refused. -/
inductive ErrorMode
  /-- They are counted. -/
  | skip
  /-- Their errors are collected. -/
  | collect
  /-- The first of them ends the parse. -/
  | throw
deriving DecidableEq, Repr

namespace ParseOptions

/-- The depth of the deepest tree that is accepted by default. -/
def defaultDepth : Nat := 64

/-- The options of a parse unless others are given. -/
def default : ParseOptions := ⟨defaultDepth⟩

/-- The bound of numbers of 64 bits. -/
def wordBound : Nat := 1 <<< 64

/-- The options of a depth that may not be given. -/
def ofDepth? : Option Json → Option ParseOptions
  | none => some default
  | some depth => (depth.natBelow? wordBound).map ParseOptions.mk

/-- The options that a JSON value describes. -/
def ofJson? : Json → Option ParseOptions
  | .object members => (Json.memberOnce "max_depth" members).bind ofDepth?
  | .array [] => ofDepth? none
  | .array [depth] => ofDepth? (some depth)
  | _ => none

/-- Options as JSON. -/
def toJson (o : ParseOptions) : Json := .object [("max_depth", .ofNat o.maxDepth)]

end ParseOptions

namespace ErrorMode

/-- Every mode, in order. -/
def all : List ErrorMode := [skip, collect, throw]

/-- The name of a mode. -/
def name : ErrorMode → String
  | skip => "skip"
  | collect => "collect"
  | throw => "throw"

/-- The mode of a given name. -/
def ofName? (name : String) : Option ErrorMode := all.find? (·.name == name)

/-- The mode that a JSON value names. -/
def ofJson? (j : Json) : Option ErrorMode := j.caseName?.bind ofName?

end ErrorMode

/-- The sort of fault that a JSON value names. -/
def FaultKind.ofJson? (j : Json) : Option FaultKind := j.caseName?.bind FaultKind.ofName?

end SborSchema
