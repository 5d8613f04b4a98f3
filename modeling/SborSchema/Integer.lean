/-
# Integers of a declared kind

An integer carries the kind it was declared with and a value in the range of
that kind. It is read from decimal text, is converted from and to the machine
types, can so be moved to another kind that has its value, and becomes a JSON
number only while every reader that holds numbers in double precision keeps it
exact.

Key definitions: `Integer`, `IntegerKind.ofInt?`, `IntegerKind.Machine`, `Integer.read`,
`Integer.ofMachine`, `Integer.toMachine?`, `Integer.narrow?`, `Integer.toJson`.
-/
import SborSchema.ParseError

namespace SborSchema

/-- An integer of a kind, with a value the kind has. -/
structure Integer where
  kind : IntegerKind
  value : Int
  inRange : kind.min ≤ value ∧ value ≤ kind.max
deriving DecidableEq, Repr

/-- The integer of a kind with a given value, if the kind has it. -/
def IntegerKind.ofInt? (k : IntegerKind) (n : Int) : Option Integer :=
  if h : k.min ≤ n ∧ n ≤ k.max then some ⟨k, n, h⟩ else none

/-- A value of the machine type of a kind. -/
structure IntegerKind.Machine (k : IntegerKind) where
  value : Int
  inRange : k.min ≤ value ∧ value ≤ k.max
deriving DecidableEq, Repr

/-- The value of the machine type of a kind that is a given number, if there is one. -/
def IntegerKind.machine? (k : IntegerKind) (n : Int) : Option k.Machine :=
  if h : k.min ≤ n ∧ n ≤ k.max then some ⟨n, h⟩ else none

namespace Integer

/-- The value as a signed number of 128 bits; only unsigned values can be too large. -/
def signed128? (x : Integer) : Option Int :=
  if x.kind = .u128 then (IntegerKind.i128.ofInt? x.value).map value else some x.value

/-- The value as an unsigned number of 128 bits; negative values have none. -/
def unsigned128? (x : Integer) : Option Int :=
  if x.kind = .u128 then some x.value
  else x.signed128?.bind fun n => (IntegerKind.u128.ofInt? n).map value

/-- Whether the value is below zero. -/
def isNegative (x : Integer) : Bool :=
  match x.signed128? with
  | some n => n < 0
  | none => false

/-- The integer of a machine value, of the kind of its type. -/
def ofMachine {k : IntegerKind} (v : k.Machine) : Integer := ⟨k, v.value, v.inRange⟩

/-- The value in the machine type of a kind, if the type has it. -/
def toMachine? (target : IntegerKind) (x : Integer) : Option target.Machine :=
  match x.signed128? with
  | some n => target.machine? n
  | none => x.unsigned128?.bind target.machine?

/-- The same value under another kind, if that kind has it. -/
def narrow? (target : IntegerKind) (x : Integer) : Option Integer :=
  (x.toMachine? target).map ofMachine

/-- The wording of a value that another kind does not have. -/
def misfitText (target : IntegerKind) (x : Integer) : String :=
  "integer " ++ Digits.text x.value ++ " does not fit in " ++ target.primitive

/-- The written form of the value. -/
def text (x : Integer) : String := Digits.text x.value

/-- The greatest magnitude below which every integer is exact in double precision. -/
def greatestExact : Nat := 1 <<< 53 - 1

/-- A number if double precision keeps it exact, and otherwise its text. -/
def toJson (x : Integer) : Json :=
  match x.signed128?.bind fun n => (IntegerKind.i64.ofInt? n).map value with
  | some n => if n.natAbs ≤ greatestExact then .ofInt n else .string x.text
  | none => .string x.text

/-- The integer of a kind with the value of a text, or why there is none. -/
def ofValue (kind : IntegerKind) (text : String) (n : Int) : Except Cause Integer :=
  match kind.ofInt? n with
  | some x => .ok x
  | none =>
    if !kind.signed && n < 0 then .error (.negativeUnsigned kind text)
    else .error (.outsideRange kind text)

/-- Reads decimal text under a kind. Only numerals are decimal text, although the reader of
integers of any length takes more. -/
def read (kind : IntegerKind) (text : String) : Except Cause Integer :=
  if !Digits.isNumeral text.toList then .error (.notInteger kind text)
  else
    match Digits.bigValue? text.toList with
    | none => .error (.notInteger kind text)
    | some n => ofValue kind text n

end Integer

end SborSchema
