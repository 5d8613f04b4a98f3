/-
# JSON values

A JSON value keeps the members of its objects in the order they were written,
repeated names included. Two values are the same content when they agree once
each object is put in name order with the last of repeated names.

Key definitions: `Json`, `Json.beq`, `Json.sorted`, `Json.sameContent`.
-/
import SborSchema.NameOrder
import SborSchema.Number

namespace SborSchema

/-- A JSON value. -/
inductive Json
  | null
  | bool (b : Bool)
  | number (n : Number)
  | string (s : String)
  | array (items : List Json)
  | object (members : List (String × Json))
deriving Repr

namespace Json

mutual

/-- Whether two values are the same, the order of members included. -/
def beq : Json → Json → Bool
  | null, null => true
  | bool a, bool b => a == b
  | number m, number n => m == n
  | string s, string t => s == t
  | array items, array items' => beqItems items items'
  | object members, object members' => beqMembers members members'
  | _, _ => false

/-- Whether two lists of items are the same. -/
def beqItems : List Json → List Json → Bool
  | [], [] => true
  | a :: items, b :: items' => beq a b && beqItems items items'
  | _, _ => false

/-- Whether two lists of members are the same. -/
def beqMembers : List (String × Json) → List (String × Json) → Bool
  | [], [] => true
  | (n, a) :: members, (n', b) :: members' => n == n' && beq a b && beqMembers members members'
  | _, _ => false

end

instance : BEq Json := ⟨beq⟩

/-- A whole number as a JSON value. -/
def ofInt (n : Int) : Json := number (.integer n)

/-- A natural number as a JSON value. -/
def ofNat (n : Nat) : Json := ofInt n

/-- An object of the members that are present. -/
def objectOf (members : List (Option (String × Json))) : Json :=
  object (members.filterMap id)

/-- A member whose value may be absent. -/
def optional (name : String) (s : Option String) : Option (String × Json) :=
  s.map fun s => (name, string s)

/-- The value of the last member of a given name. -/
def last? (members : List (String × Json)) (name : String) : Option Json :=
  (members.reverse.find? (·.1 == name)).map (·.2)

mutual

/-- The value with each object in name order, the last of repeated names kept. -/
def sorted : Json → Json
  | array items => array (sortedItems items)
  | object members => object (sortedMembers members [])
  | other => other

/-- The items with each object in name order. -/
def sortedItems : List Json → List Json
  | [] => []
  | item :: items => sorted item :: sortedItems items

/-- Puts the members, each in name order, into a list that is in name order. -/
def sortedMembers : List (String × Json) → List (String × Json) → List (String × Json)
  | [], done => done
  | (name, value) :: members, done =>
    sortedMembers members (NameOrder.put name (sorted value) done)

end

/-- Whether two values have the same content. -/
def sameContent (a b : Json) : Bool := a.sorted == b.sorted

end Json

end SborSchema
