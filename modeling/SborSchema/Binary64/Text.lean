/-
# Written forms of a number

Two forms of the shortest decimal are in use. The compact form is positional
while the point falls less than sixteen places to the right of the first digit and
less than five to the left, and otherwise has an exponent, with or without a
plus sign. The positional form has no exponent at all and keeps its point.

Key definitions: `Binary64.ExponentSign`, `Binary64.compactText`,
`Binary64.positionalText`.
-/
import SborSchema.Binary64.Shortest

namespace SborSchema.Binary64

/-- `n` zeros. -/
def zeros (n : Nat) : List Char := List.replicate n '0'

/-- The digits `ds` times `10 ^ k` without an exponent. -/
def positional (ds : List Char) (k : Int) : List Char :=
  let point : Int := ds.length + k
  if 0 ≤ k then ds ++ zeros k.toNat ++ ['.', '0']
  else if 0 < point then ds.take point.toNat ++ '.' :: ds.drop point.toNat
  else ['0', '.'] ++ zeros (-point).toNat ++ ds

/-- Which exponents are written with a sign. -/
inductive ExponentSign
  | negativeOnly
  | always
deriving DecidableEq, Repr

/-- The written form of an exponent. -/
def exponentText (signs : ExponentSign) (n : Int) : List Char :=
  let digits := (toString n).toList
  if signs = .always ∧ 0 ≤ n then '+' :: digits else digits

/-- The digits `ds` times `10 ^ k` with one digit before the point and an exponent. -/
def scientific (signs : ExponentSign) (ds : List Char) (k : Int) : List Char :=
  let exponent := exponentText signs (ds.length + k - 1)
  match ds with
  | [] => []
  | [d] => d :: 'e' :: exponent
  | d :: rest => d :: '.' :: rest ++ 'e' :: exponent

/-- The sign of a negative number. -/
def sign (negative : Bool) : List Char := if negative then ['-'] else []

/-- The compact form of a finite number. -/
def compact (signs : ExponentSign) (m : Nat) (e : Int) : List Char :=
  let d := shortest m e
  let ds := Nat.toDigits 10 d.1
  let point : Int := ds.length + d.2
  if -5 < point ∧ point ≤ 16 then positional ds d.2 else scientific signs ds d.2

/-- The compact form; the numbers that are not finite have names. -/
def compactText (signs : ExponentSign) : Binary64 → String
  | finite s m e => String.ofList (sign s ++ compact signs m e)
  | infinite s => String.ofList (sign s ++ ['.', 'i', 'n', 'f'])
  | nan => ".nan"

/-- The positional form; the numbers that are not finite have names. -/
def positionalText : Binary64 → String
  | finite s m e =>
    let d := shortest m e
    String.ofList (sign s ++ positional (Nat.toDigits 10 d.1) d.2)
  | infinite s => String.ofList (sign s ++ ['i', 'n', 'f'])
  | nan => "NaN"

end SborSchema.Binary64
