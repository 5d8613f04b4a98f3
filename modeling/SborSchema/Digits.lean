/-
# Decimal digits

Whole numbers are written as an optional minus sign and the digits 0 to 9. A text
is a numeral if it is so written, with zeros in front or a signed zero perhaps. The
reader of integers of any length takes more than numerals: a plus sign, and
underscores between digits.

Key definitions: `Digits.natValue`, `Digits.isNumeral`, `Digits.bigValue?`, `Digits.ofInt`.
-/

namespace SborSchema.Digits

/-- Whether a character is one of the digits 0 to 9. -/
def isDigit (c : Char) : Bool := '0' ≤ c && c ≤ '9'

/-- The number of a digit. -/
def digitValue (c : Char) : Nat := c.toNat - '0'.toNat

/-- The number a list of digits stands for, most significant first. -/
def natValue (ds : List Char) : Nat :=
  ds.foldl (fun n d => 10 * n + digitValue d) 0

/-- The number of a non-empty list of digits. -/
def natValue? (ds : List Char) : Option Nat :=
  if !ds.isEmpty && ds.all isDigit then some (natValue ds) else none

/-- Whether it is a non-empty list of digits that a minus sign may precede. -/
def isNumeral (cs : List Char) : Bool :=
  let ds :=
    match cs with
    | '-' :: ds => ds
    | ds => ds
  !ds.isEmpty && ds.all isDigit

/-- The number of digits between which underscores may stand. -/
def groupedValue? (cs : List Char) : Option Nat :=
  if cs.isEmpty || cs.head? == some '_' then none
  else
    let ds := cs.filter (· ≠ '_')
    if ds.all isDigit then some (natValue ds) else none

/-- The number of such digits that one plus sign may precede. -/
def unsignedValue? : List Char → Option Nat
  | '+' :: ds => if ds.head? = some '+' then none else groupedValue? ds
  | ds => groupedValue? ds

/-- The number of a text, as integers of any length are read; either sign may precede the
digits, but not both. -/
def bigValue? : List Char → Option Int
  | '-' :: ds => if ds.head? = some '+' then none else (unsignedValue? ds).map fun n => -(n : Int)
  | ds => (unsignedValue? ds).map fun n => (n : Int)

/-- The digits of a natural number. -/
def ofNat (n : Nat) : List Char := Nat.toDigits 10 n

/-- The digits of an integer, after a minus sign if it is negative. -/
def ofInt (n : Int) : List Char :=
  if n < 0 then '-' :: ofNat n.natAbs else ofNat n.natAbs

/-- The written form of an integer. -/
def text (n : Int) : String := String.ofList (ofInt n)

/-- The digits of a natural number, with zeros in front up to a width. -/
def padded (width n : Nat) : List Char :=
  List.replicate (width - (ofNat n).length) '0' ++ ofNat n

end SborSchema.Digits
