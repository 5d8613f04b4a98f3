/-
# Numbers of a document

A number in a document is a whole number, or has a fraction or an exponent
and is then held in double precision. The two sorts are kept apart: `5` and
`5.0` are different numbers.

Key definitions: `Number`, `Number.text`.
-/
import SborSchema.Digits
import SborSchema.Binary64.Text

namespace SborSchema

/-- A number as a document holds it. -/
inductive Number
  | integer (n : Int)
  | float (x : Binary64)
deriving DecidableEq, Repr

/-- The written form of a number, with the given signs of exponents. -/
def Number.text (signs : Binary64.ExponentSign) : Number → String
  | integer n => Digits.text n
  | float x => x.compactText signs

end SborSchema
