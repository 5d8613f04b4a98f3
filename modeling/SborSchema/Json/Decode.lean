/-
# Reading parts of a JSON value

What a field of a record may be read from: a text, a list of texts, a natural
number below a bound, or the name of a case. A field that may be absent may
also be null. Of the members of an object, one that is read may come only once.

Key definitions: `Json.memberOnce`, `Json.orNull?`, `Json.text?`, `Json.texts?`,
`Json.natBelow?`, `Json.caseName?`, `Json.emptyCaseName?`.
-/
import SborSchema.Json

namespace SborSchema.Json

/-- The value of the one member of a given name among the members of an object: nothing if
there is none, no result if there are several. -/
def memberOnce (name : String) (members : List (String × Json)) : Option (Option Json) :=
  match members.filter (·.1 == name) with
  | [] => some none
  | [(_, value)] => some (some value)
  | _ => none

/-- Reads a field that may be absent or null. -/
def orNull? {α : Type} (read : Json → Option α) : Option Json → Option (Option α)
  | none => some none
  | some null => some none
  | some j => (read j).map some

/-- A text. -/
def text? : Json → Option String
  | string s => some s
  | _ => none

/-- A list of texts. -/
def texts? : Json → Option (List String)
  | array items => items.mapM text?
  | _ => none

/-- A natural number below a bound. -/
def natBelow? (bound : Nat) : Json → Option Nat
  | number (.integer n) => if 0 ≤ n ∧ n < bound then some n.toNat else none
  | _ => none

/-- The name of a case without content. -/
def caseName? : Json → Option String
  | string name => some name
  | object [(name, null)] => some name
  | _ => none

/-- The name of a case whose content may be an empty object. -/
def emptyCaseName? : Json → Option String
  | object [(name, object [])] => some name
  | j => caseName? j

end SborSchema.Json
