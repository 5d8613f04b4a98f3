/-
# Recursive schemas

A recursive schema is the solution of `s = body s`, where `body` is a schema
with a place for a reference to itself. Each use of the reference lies at least
one node below the place where its owner was used, as long as a composite
stands between them, so on a given tree as many unfoldings as the tree has
levels decide everything. A reference whose owner is gone accepts no kind, and
reports this when it is run without the gate.

Key definitions: `Schema.detached`, `Schema.unfold`, `Schema.recursive`,
`Schema.ownerText`, `Schema.referenceText`.
-/
import SborSchema.Schema

namespace SborSchema.Schema

variable {α : Type}

/-- A reference whose owner is gone. -/
def detached : Schema α where
  kinds := .empty
  validate _ p := .error ⟨.detached, p⟩
  parse _ p := .error ⟨.detached, p⟩

/-- `body` around itself `n` times, with `base` innermost. -/
def unfold (body : Schema α → Schema α) (base : Schema α) : Nat → Schema α
  | 0 => base
  | n + 1 => body (unfold body base n)

/-- The schema that refers to itself through the argument of `body`. -/
def recursive (body : Schema α → Schema α) : Schema α where
  kinds := (body detached).kinds
  validate t p := (unfold body detached t.depth).validate t p
  parse t p := (unfold body detached t.depth).parse t p

/-- The written form of the owner of a recursive schema. -/
def ownerText (s : Schema α) : String := "Recursive(" ++ s.kinds.text ++ ")"

/-- The written form of a reference to a recursive schema. -/
def referenceText (attached : Bool) : String :=
  "RecursiveRef(attached: " ++ (if attached then "true" else "false") ++ ")"

end SborSchema.Schema
