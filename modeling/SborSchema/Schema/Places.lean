/-
# Structs and tuples of differently typed parts

A list of schemas gives all its parts one type. Here the schemas stand in
places, each with a type of its own, and the values are nested pairs that end
in the unit. Structs and tuples over places take their children off one by
one: a place without a child is refused on the spot.

Key definitions: `Places`, `Payload.fixedTuple`, `NamedPlaces`, `Payload.fixedStruct`,
`Payload.fixedLenientStruct`, `Power`, `Places.ofList`, `NamedPlaces.ofList`.
-/
import SborSchema.Schema.Product

namespace SborSchema

/-- Schemas by position; their values together have type `α`. -/
inductive Places : Type → Type 1
  | nil : Places Unit
  | cons {α β : Type} (head : Schema α) (tail : Places β) : Places (α × β)

namespace Places

/-- The number of places. -/
def arity {α : Type} : Places α → Nat
  | nil => 0
  | cons _ tail => tail.arity + 1

/-- Checks the children place by place; `declared` and `found` are the numbers of
places and of children of the whole tuple, and `i` is the first position. -/
def validateFrom {α : Type} (declared found : Nat) :
    Places α → List Tree → Nat → Path → Except ParseError Unit
  | nil, _, _, _ => .ok ()
  | cons _ _, [], _, p => .error ⟨.arityMismatch declared found, p⟩
  | cons s tail, t :: ts, i, p => do
    s.validateGated t (p.index i)
    validateFrom declared found tail ts (i + 1) p

/-- Parses the children place by place. -/
def parseFrom {α : Type} (declared found : Nat) :
    Places α → List Tree → Nat → Path → Except ParseError α
  | nil, _, _, _ => .ok ()
  | cons _ _, [], _, p => .error ⟨.arityMismatch declared found, p⟩
  | cons s tail, t :: ts, i, p => do
    let a ← s.parseGated t (p.index i)
    let b ← parseFrom declared found tail ts (i + 1) p
    return (a, b)

end Places

/-- A tuple with a fixed number of places. -/
def Payload.fixedTuple {α : Type} (places : Places α) : Payload α :=
  ofFields
    (fun children p => do
      checkArity places.arity children p
      places.validateFrom places.arity children.length children 0 p)
    (fun children p => do
      checkArity places.arity children p
      places.parseFrom places.arity children.length children 0 p)

/-- Named schemas; their values together have type `α` when all are there, and
type `β` when each may be absent. -/
inductive NamedPlaces : Type → Type → Type 1
  | nil : NamedPlaces Unit Unit
  | cons {α β γ : Type} (name : String) (head : Schema α) (tail : NamedPlaces β γ) :
      NamedPlaces (α × β) (Option α × γ)

namespace NamedPlaces

/-- The declared names in order. -/
def names {α β : Type} : NamedPlaces α β → List String
  | nil => []
  | cons name _ tail => name :: tail.names

/-- Refuses a list of children in which a declared name is missing. -/
def checkMissing {α β : Type} (places : NamedPlaces α β) (children : List Tree) (p : Path) :
    Except ParseError Unit :=
  match places.names.filter fun name => (Tree.child? name children).isNone with
  | [] => .ok ()
  | names => .error ⟨.missingFields names, p⟩

/-- Checks the child of each declared name that is there. -/
def validatePresent {α β : Type} :
    NamedPlaces α β → List Tree → Path → Except ParseError Unit
  | nil, _, _ => .ok ()
  | cons name s tail, children, p => do
    match Tree.child? name children with
    | some t => s.validateGated t (p.field name)
    | none => .ok ()
    tail.validatePresent children p

/-- Parses the child of each declared name; a missing one is refused by itself. -/
def parseRequired {α β : Type} : NamedPlaces α β → List Tree → Path → Except ParseError α
  | nil, _, _ => .ok ()
  | cons name s tail, children, p => do
    match Tree.child? name children with
    | none => .error ⟨.missingFields [name], p⟩
    | some t =>
      let a ← s.parseGated t (p.field name)
      let rest ← tail.parseRequired children p
      return (a, rest)

/-- Parses the child of each declared name that is there. -/
def parsePresent {α β : Type} : NamedPlaces α β → List Tree → Path → Except ParseError β
  | nil, _, _ => .ok ()
  | cons name s tail, children, p => do
    match Tree.child? name children with
    | none =>
      let rest ← tail.parsePresent children p
      return (none, rest)
    | some t =>
      let a ← s.parseGated t (p.field name)
      let rest ← tail.parsePresent children p
      return (some a, rest)

end NamedPlaces

/-- A struct of named places that must all be there. -/
def Payload.fixedStruct {α β : Type} (places : NamedPlaces α β) : Payload α :=
  ofFields
    (fun children p => do
      places.checkMissing children p
      places.validatePresent children p)
    (fun children p => do
      places.checkMissing children p
      places.parseRequired children p)

/-- A struct of named places that may be absent. -/
def Payload.fixedLenientStruct {α β : Type} (places : NamedPlaces α β) : Payload β :=
  ofFields places.validatePresent places.parsePresent

/-- Nested pairs of `n` values of one type. -/
def Power (α : Type) : Nat → Type
  | 0 => Unit
  | n + 1 => α × Power α n

/-- The values of nested pairs in order. -/
def Power.toList {α : Type} : (n : Nat) → Power α n → List α
  | 0, _ => []
  | n + 1, (a, rest) => a :: toList n rest

/-- The places of a list of schemas. -/
def Places.ofList {α : Type} : (ss : List (Schema α)) → Places (Power α ss.length)
  | [] => .nil
  | s :: ss => .cons s (ofList ss)

/-- The named places of a list of fields. -/
def NamedPlaces.ofList {α : Type} : (fields : List (String × Schema α)) →
    NamedPlaces (Power α fields.length) (Power (Option α) fields.length)
  | [] => .nil
  | (name, s) :: fields => .cons name s (ofList fields)

end SborSchema
