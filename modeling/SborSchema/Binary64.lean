/-
# Double-precision numbers, exactly

A finite number is a significand below 2^53 times a power of two that is at
least 2^-1074. The significand is as large as this allows, so each number has
one form (apart from the sign of zero). Rounding is done in exact arithmetic:
`ofRatio` gives the number nearest to a quotient, and of two equally near the
one with the even significand.

Key definitions: `Binary64`, `Binary64.ofRatio`, `Binary64.ofDecimal`,
`Binary64.scaleByTen`.
-/

namespace SborSchema

/-- A double-precision number; a finite one is `significand * 2 ^ exponent`. -/
inductive Binary64
  | finite (negative : Bool) (significand : Nat) (exponent : Int)
  | infinite (negative : Bool)
  | nan
deriving DecidableEq, Repr

namespace Binary64

/-- The least exponent of a finite number. -/
def leastExponent : Int := -1074

/-- The greatest exponent of a finite number. -/
def greatestExponent : Int := 971

/-- The number of bits of a full significand. -/
def precision : Nat := 53

/-- `num / den / 2 ^ e` as a quotient of naturals. -/
def overPower (num den : Nat) (e : Int) : Nat × Nat :=
  if 0 ≤ e then (num, den <<< e.toNat) else (num <<< (-e).toNat, den)

/-- The integer nearest to `num / den`, of two the even one. -/
def roundQuotient (num den : Nat) : Nat :=
  let q := num / den
  let twice := 2 * (num % den)
  if twice < den ∨ (twice = den ∧ q % 2 = 0) then q else q + 1

/-- The exponent of the number nearest to `num / den`, for a positive quotient. -/
def exponentFor (num den : Nat) : Int :=
  let guess : Int := (num.log2 : Int) - den.log2 - (precision - 1)
  let r := overPower num den guess
  let e := if r.1 / r.2 < 1 <<< (precision - 1) then guess - 1 else guess
  max e leastExponent

/-- The number nearest to `num / den`, infinite if that is too large. -/
def ofRatio (negative : Bool) (num den : Nat) : Binary64 :=
  if num = 0 then finite negative 0 leastExponent
  else
    let e := exponentFor num den
    let r := overPower num den e
    let m := roundQuotient r.1 r.2
    let (m, e) := if m = 1 <<< precision then (1 <<< (precision - 1), e + 1) else (m, e)
    if greatestExponent < e then infinite negative else finite negative m e

/-- The number nearest to `digits * 10 ^ exponent`. -/
def ofDecimal (negative : Bool) (digits : Nat) (exponent : Int) : Binary64 :=
  let size : Int := exponent + (Nat.toDigits 10 digits).length
  if digits = 0 then finite negative 0 leastExponent
  else if 400 < size then infinite negative
  else if size < -400 then finite negative 0 leastExponent
  else if 0 ≤ exponent then ofRatio negative (digits * Nat.pow 10 exponent.toNat) 1
  else ofRatio negative digits (Nat.pow 10 (-exponent).toNat)

/-- The magnitude of a finite number as a quotient of naturals. -/
def magnitude (significand : Nat) (exponent : Int) : Nat × Nat :=
  if 0 ≤ exponent then (significand <<< exponent.toNat, 1)
  else (significand, 1 <<< (-exponent).toNat)

/-- The product of two numbers of which the second is a positive finite one. -/
def mul : Binary64 → Binary64 → Binary64
  | finite s m e, finite _ n f =>
    let a := magnitude m e
    let b := magnitude n f
    ofRatio s (a.1 * b.1) (a.2 * b.2)
  | x, _ => x

/-- The quotient of two numbers of which the second is a positive finite one. -/
def div : Binary64 → Binary64 → Binary64
  | finite s m e, finite _ n f =>
    let a := magnitude m e
    let b := magnitude n f
    ofRatio s (a.1 * b.2) (a.2 * b.1)
  | x, _ => x

/-- Whether the number is a zero of either sign. -/
def isZero : Binary64 → Bool
  | finite _ m _ => m = 0
  | _ => false

/-- Whether the number is neither infinite nor undefined. -/
def isFinite : Binary64 → Bool
  | finite .. => true
  | _ => false

/-- The number nearest to `10 ^ n`. -/
def powerOfTen (n : Nat) : Binary64 := ofRatio false (Nat.pow 10 n) 1

/-- Multiplies a number by a power of ten in steps of at most 308 places, each
rounded by itself. There is no result when it would be infinite. -/
def scaleByTen (x : Binary64) (exponent : Int) : Option Binary64 :=
  if 0 ≤ exponent then
    if exponent ≤ 308 then
      let y := x.mul (powerOfTen exponent.toNat)
      if y.isFinite then some y else none
    else if x.isZero then some x
    else none
  else if -308 ≤ exponent then some (x.div (powerOfTen (-exponent).toNat))
  else if x.isZero then some x
  else
    let y := x.div (powerOfTen 308)
    if y.isZero then some y
    else if -616 ≤ exponent then some (y.div (powerOfTen (-exponent - 308).toNat))
    else some ((y.div (powerOfTen 308)).div (powerOfTen 308))

end Binary64

end SborSchema
