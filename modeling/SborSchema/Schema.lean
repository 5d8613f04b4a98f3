/-
# Schemas

A schema says which trees are accepted and what an accepted tree becomes. It
has three parts: the kinds of node it accepts, a check, and a parse. Whoever
uses a schema runs the kind gate first: a node of another kind is refused
before its content is looked at. A payload is a schema that can also be run on
a bare list of fields, as the content of a variant.

Key definitions: `Schema`, `Schema.gate`, `Schema.parseGated`, `Schema.run`,
`Schema.runWithin`, `Schema.map`, `Schema.tryMap`, `Payload`, `Payload.ofFields`.
-/
import SborSchema.ParseError
import SborSchema.Tree

namespace SborSchema

/-- A schema whose accepted trees become values of type `α`. -/
structure Schema (α : Type) where
  /-- The kinds of node that are accepted. -/
  kinds : KindSet
  /-- Checks the tree at a path. -/
  validate : Tree → Path → Except ParseError Unit
  /-- Parses the tree at a path. -/
  parse : Tree → Path → Except ParseError α

/-- The refusal of a node for its kind. -/
def wrongKind (accepted : KindSet) (t : Tree) (p : Path) : ParseError :=
  ⟨.wrongKind accepted t.kind, p⟩

namespace Schema

variable {α β : Type}

/-- Refuses a node of a kind that is not accepted. -/
def gate (s : Schema α) (t : Tree) (p : Path) : Except ParseError Unit :=
  if s.kinds.contains t.kind then .ok () else .error (wrongKind s.kinds t p)

/-- The gate, then the check. -/
def validateGated (s : Schema α) (t : Tree) (p : Path) : Except ParseError Unit := do
  s.gate t p
  s.validate t p

/-- The gate, then the parse. -/
def parseGated (s : Schema α) (t : Tree) (p : Path) : Except ParseError α := do
  s.gate t p
  s.parse t p

/-- Parses a whole tree. -/
def run (s : Schema α) (t : Tree) : Except ParseError α := s.parseGated t .root

/-- Parses a whole tree unless it is deeper than `limit`. -/
def runWithin (limit : Nat) (s : Schema α) (t : Tree) : Except ParseError α :=
  if limit < t.depth then .error ⟨.depthExceeded t.depth limit, Path.root⟩ else s.run t

/-- Applies a function to what is parsed. -/
def map (f : α → β) (s : Schema α) : Schema β where
  kinds := s.kinds
  validate := s.validate
  parse t p := (s.parse t p).map f

/-- The outcome of a conversion at a path: a refusal is reported there. -/
def convert (f : α → Except String β) (a : α) (p : Path) : Except ParseError β :=
  match f a with
  | .ok b => .ok b
  | .error reason => .error ⟨.rejected reason, p⟩

/-- Applies a conversion that may refuse what is parsed. -/
def tryMap (f : α → Except String β) (s : Schema α) : Schema β where
  kinds := s.kinds
  validate t p := do
    let a ← s.parse t p
    discard (convert f a p)
  parse t p := do
    let a ← s.parse t p
    convert f a p

end Schema

/-- The fields of a tuple node; another node is refused. -/
def Tree.tupleFields (t : Tree) (p : Path) : Except ParseError (List Tree) :=
  match t with
  | .tuple _ fields => .ok fields
  | t => .error (wrongKind (.single .tuple) t p)

/-- A schema that can also be run on a bare list of fields. -/
structure Payload (α : Type) extends Schema α where
  /-- Checks a list of fields. -/
  validateFields : List Tree → Path → Except ParseError Unit
  /-- Parses a list of fields. -/
  parseFields : List Tree → Path → Except ParseError α

namespace Payload

variable {α β : Type}

/-- The payload that runs on the fields of a tuple node as on a bare list. -/
def ofFields (validateFields : List Tree → Path → Except ParseError Unit)
    (parseFields : List Tree → Path → Except ParseError α) : Payload α where
  kinds := .single .tuple
  validate t p := do
    let fields ← t.tupleFields p
    validateFields fields p
  parse t p := do
    let fields ← t.tupleFields p
    parseFields fields p
  validateFields
  parseFields

/-- Applies a function to what is parsed. -/
def map (f : α → β) (s : Payload α) : Payload β where
  toSchema := s.toSchema.map f
  validateFields := s.validateFields
  parseFields fields p := (s.parseFields fields p).map f

/-- Applies a conversion that may refuse what is parsed. -/
def tryMap (f : α → Except String β) (s : Payload α) : Payload β where
  toSchema := s.toSchema.tryMap f
  validateFields fields p := do
    let a ← s.parseFields fields p
    discard (Schema.convert f a p)
  parseFields fields p := do
    let a ← s.parseFields fields p
    Schema.convert f a p

end Payload

end SborSchema
