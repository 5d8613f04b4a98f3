/-
# Structs and tuples

A struct reads the fields of a tuple node by name: a declared name goes with
the first child that carries it, and all other children are ignored. A strict
struct first wants every declared name to be there; a lenient one gives nothing
for a name that is not. A tuple reads the fields by position and wants exactly
as many as it declares.

Key definitions: `Tree.child?`, `Payload.struct`, `Payload.lenientStruct`,
`Payload.tuple`.
-/
import SborSchema.Schema

namespace SborSchema

variable {α : Type}

/-- The first of the children that carries a field name. -/
def Tree.child? (name : String) (children : List Tree) : Option Tree :=
  children.find? fun t => t.fieldName == some name

namespace Payload

/-- The declared names that no child carries. -/
def missingNames (fields : List (String × Schema α)) (children : List Tree) : List String :=
  (fields.map (·.1)).filter fun name => (Tree.child? name children).isNone

/-- Refuses a list of children in which a declared name is missing. -/
def checkMissing (fields : List (String × Schema α)) (children : List Tree) (p : Path) :
    Except ParseError Unit :=
  match missingNames fields children with
  | [] => .ok ()
  | names => .error ⟨.missingFields names, p⟩

/-- Checks the child of each declared name that is there. -/
def validatePresent : List (String × Schema α) → List Tree → Path → Except ParseError Unit
  | [], _, _ => .ok ()
  | (name, s) :: rest, children, p => do
    match Tree.child? name children with
    | some t => s.validateGated t (p.field name)
    | none => .ok ()
    validatePresent rest children p

/-- Parses the child of each declared name; a missing one is refused by itself. -/
def parseRequired : List (String × Schema α) → List Tree → Path →
    Except ParseError (List (String × α))
  | [], _, _ => .ok []
  | (name, s) :: rest, children, p => do
    match Tree.child? name children with
    | none => .error ⟨.missingFields [name], p⟩
    | some t =>
      let a ← s.parseGated t (p.field name)
      let values ← parseRequired rest children p
      return (name, a) :: values

/-- Parses the child of each declared name that is there. -/
def parsePresent : List (String × Schema α) → List Tree → Path →
    Except ParseError (List (String × Option α))
  | [], _, _ => .ok []
  | (name, s) :: rest, children, p => do
    match Tree.child? name children with
    | none =>
      let values ← parsePresent rest children p
      return (name, none) :: values
    | some t =>
      let a ← s.parseGated t (p.field name)
      let values ← parsePresent rest children p
      return (name, some a) :: values

/-- A struct whose declared fields must all be there. -/
def struct (fields : List (String × Schema α)) : Payload (List (String × α)) :=
  ofFields
    (fun children p => do
      checkMissing fields children p
      validatePresent fields children p)
    (fun children p => do
      checkMissing fields children p
      parseRequired fields children p)

/-- A struct whose declared fields may be absent. -/
def lenientStruct (fields : List (String × Schema α)) : Payload (List (String × Option α)) :=
  ofFields (validatePresent fields) (parsePresent fields)

/-- Refuses another number of children than declared. -/
def checkArity (declared : Nat) (children : List Tree) (p : Path) : Except ParseError Unit :=
  if children.length = declared then .ok ()
  else .error ⟨.arityMismatch declared children.length, p⟩

/-- Checks children against schemas pairwise; the first stands at position `i`. -/
def validateEach : List (Schema α) → List Tree → Nat → Path → Except ParseError Unit
  | s :: ss, t :: ts, i, p => do
    s.validateGated t (p.index i)
    validateEach ss ts (i + 1) p
  | _, _, _, _ => .ok ()

/-- Parses children with schemas pairwise; the first stands at position `i`. -/
def parseEach : List (Schema α) → List Tree → Nat → Path → Except ParseError (List α)
  | s :: ss, t :: ts, i, p => do
    let a ← s.parseGated t (p.index i)
    let values ← parseEach ss ts (i + 1) p
    return a :: values
  | _, _, _, _ => .ok []

/-- A tuple of a declared number of fields. -/
def tuple (elements : List (Schema α)) : Payload (List α) :=
  ofFields
    (fun children p => do
      checkArity elements.length children p
      validateEach elements children 0 p)
    (fun children p => do
      checkArity elements.length children p
      parseEach elements children 0 p)

end Payload

end SborSchema
