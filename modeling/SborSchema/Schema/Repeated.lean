/-
# Arrays and maps

An array schema runs one schema on every element. A map schema runs two on
every entry, on the key before the value, and both report the position of the
entry. The entries keep their order, repeated keys included.

Key definitions: `Schema.array`, `Schema.mapping`.
-/
import SborSchema.Schema

namespace SborSchema.Schema

variable {α κ ν : Type}

/-- Checks the elements of an array; the first stands at position `i`. -/
def validateElements (s : Schema α) : List Tree → Nat → Path → Except ParseError Unit
  | [], _, _ => .ok ()
  | t :: ts, i, p => do
    s.validateGated t (p.index i)
    validateElements s ts (i + 1) p

/-- Parses the elements of an array; the first stands at position `i`. -/
def parseElements (s : Schema α) : List Tree → Nat → Path → Except ParseError (List α)
  | [], _, _ => .ok []
  | t :: ts, i, p => do
    let a ← s.parseGated t (p.index i)
    let values ← parseElements s ts (i + 1) p
    return a :: values

/-- An array of what `element` accepts. -/
def array (element : Schema α) : Schema (List α) where
  kinds := .single .array
  validate t p :=
    match t with
    | .array _ _ elements => validateElements element elements 0 p
    | t => .error (wrongKind (.single .array) t p)
  parse t p :=
    match t with
    | .array _ _ elements => parseElements element elements 0 p
    | t => .error (wrongKind (.single .array) t p)

/-- Checks the entries of a map; the first stands at position `i`. -/
def validateEntries (key : Schema κ) (value : Schema ν) :
    List (Tree × Tree) → Nat → Path → Except ParseError Unit
  | [], _, _ => .ok ()
  | (k, v) :: rest, i, p => do
    key.validateGated k (p.index i)
    value.validateGated v (p.index i)
    validateEntries key value rest (i + 1) p

/-- Parses the entries of a map; the first stands at position `i`. -/
def parseEntries (key : Schema κ) (value : Schema ν) :
    List (Tree × Tree) → Nat → Path → Except ParseError (List (κ × ν))
  | [], _, _ => .ok []
  | (k, v) :: rest, i, p => do
    let a ← key.parseGated k (p.index i)
    let b ← value.parseGated v (p.index i)
    let entries ← parseEntries key value rest (i + 1) p
    return (a, b) :: entries

/-- A map from what `key` accepts to what `value` accepts. -/
def mapping (key : Schema κ) (value : Schema ν) : Schema (List (κ × ν)) where
  kinds := .single .map
  validate t p :=
    match t with
    | .map _ _ _ entries => validateEntries key value entries 0 p
    | t => .error (wrongKind (.single .map) t p)
  parse t p :=
    match t with
    | .map _ _ _ entries => parseEntries key value entries 0 p
    | t => .error (wrongKind (.single .map) t p)

end SborSchema.Schema
