/-
# The shortest decimal of a number

A finite number is written with the fewest digits that still read back as the
same number: the multiple of the largest power of ten that rounds to it, and
of several multiples the nearest. The multiples next to the number on each
side are the only candidates.

Key definitions: `Binary64.roundsTo`, `Binary64.shortest`.
-/
import SborSchema.Binary64

namespace SborSchema.Binary64

/-- Whether `num / den` rounds to `m * 2 ^ e`: it lies between the midpoints to
the two neighbours, or on one when the significand is even. -/
def roundsTo (m : Nat) (e : Int) (num den : Nat) : Bool :=
  let below := if m = 1 <<< (precision - 1) ∧ leastExponent < e then 1 else 2
  let unit := magnitude 1 (e - 2)
  let low := (4 * m - below) * unit.1 * den
  let high := (4 * m + 2) * unit.1 * den
  let x := num * unit.2
  if m % 2 = 0 then low ≤ x && x ≤ high else low < x && x < high

/-- A power of ten as a quotient of naturals. -/
def tenPower (k : Int) : Nat × Nat :=
  if 0 ≤ k then (Nat.pow 10 k.toNat, 1) else (1, Nat.pow 10 (-k).toNat)

/-- The multiple of `10 ^ k` that rounds to `m * 2 ^ e` and is nearest to it. -/
def multiple? (m : Nat) (e : Int) (k : Int) : Option Nat :=
  let v := magnitude m e
  let t := tenPower k
  let num := v.1 * t.2
  let den := v.2 * t.1
  let q := num / den
  let lower := roundsTo m e (q * t.1) t.2
  let upper := roundsTo m e ((q + 1) * t.1) t.2
  if lower && upper then some (roundQuotient num den)
  else if lower then some q
  else if upper then some (q + 1)
  else none

/-- Tries the powers of ten from `10 ^ k` downwards, at most `fuel` of them. -/
def shortestFrom (m : Nat) (e : Int) : Nat → Int → Nat × Int
  | 0, k => (m, k)
  | fuel + 1, k =>
    match multiple? m e k with
    | some d => (d, k)
    | none => shortestFrom m e fuel (k - 1)

/-- The digits and the power of ten of the shortest decimal of `m * 2 ^ e`. -/
def shortest (m : Nat) (e : Int) : Nat × Int :=
  if m = 0 then (0, 0)
  else shortestFrom m e 24 (((m.log2 : Int) + e + 1) * 30103 / 100000 + 2)

end SborSchema.Binary64
