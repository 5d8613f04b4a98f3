/-
# Whole numbers in double precision

A whole number below 2^53 is a significand of at most 53 bits, so rounding to
double precision shifts it into place and loses nothing: the number that is held
is the whole number itself.

Key definitions: `Binary64.whole?`, `Binary64.ofWhole`.
Key theorems: `Binary64.ofRatio_one`, `Binary64.whole?_ofWhole`.
-/
import Mathlib.Algebra.Group.Nat.Defs
import SborSchema.Binary64

namespace SborSchema.Binary64

/-- The whole number that a double-precision number is, if it is one. -/
def whole? : Binary64 → Option Int
  | finite negative significand exponent =>
    let q := magnitude significand exponent
    let n : Int := (q.1 / q.2 : Nat)
    if q.1 % q.2 = 0 then some (if negative then -n else n) else none
  | _ => none

/-- The double-precision number nearest to a whole number. -/
def ofWhole (n : Int) : Binary64 := ofRatio (n < 0) n.natAbs 1

/-- A quotient by one is scaled up by shifting it. -/
theorem overPower_one {e : Int} (he : e ≤ 0) (n : Nat) : overPower n 1 e = (n <<< (-e).toNat, 1) := by
  rw [overPower]
  by_cases hzero : 0 ≤ e
  · obtain rfl : e = 0 := by omega
    rfl
  · rw [if_neg hzero]

theorem magnitude_of_nonpos {e : Int} (he : e ≤ 0) (m : Nat) :
    magnitude m e = (m, 1 <<< (-e).toNat) := by
  rw [magnitude]
  by_cases hzero : 0 ≤ e
  · obtain rfl : e = 0 := by omega
    rfl
  · rw [if_neg hzero]

/-- A quotient by one needs no rounding. -/
theorem roundQuotient_one (n : Nat) : roundQuotient n 1 = n := by
  have hsmall : 2 * (n % 1) < 1 := by omega
  rw [roundQuotient, if_pos (.inl hsmall), Nat.div_one]

variable {n : Nat}

/-- A number below 2^53 has 53 bits once it is shifted into place. -/
theorem shifted_bounds (hpos : 0 < n) (hlt : n < 2 ^ 53) :
    n.log2 ≤ 52 ∧ 2 ^ 52 ≤ n <<< (52 - n.log2) ∧ n <<< (52 - n.log2) < 2 ^ 53 := by
  have hne : n ≠ 0 := Nat.ne_of_gt hpos
  have hlog : n.log2 ≤ 52 := Nat.le_of_lt_succ ((Nat.log2_lt hne).mpr hlt)
  have hlow : 2 ^ n.log2 ≤ n := Nat.log2_self_le hne
  have hhigh : n < 2 ^ (n.log2 + 1) := Nat.lt_log2_self
  have hpow : 0 < 2 ^ (52 - n.log2) := Nat.two_pow_pos _
  rw [Nat.shiftLeft_eq]
  refine ⟨hlog, ?_, ?_⟩
  · calc 2 ^ 52 = 2 ^ n.log2 * 2 ^ (52 - n.log2) := by
          rw [← Nat.pow_add, Nat.add_sub_cancel' hlog]
      _ ≤ n * 2 ^ (52 - n.log2) := Nat.mul_le_mul_right _ hlow
  · calc n * 2 ^ (52 - n.log2) < 2 ^ (n.log2 + 1) * 2 ^ (52 - n.log2) :=
          Nat.mul_lt_mul_of_pos_right hhigh hpow
      _ = 2 ^ 53 := by
          rw [← Nat.pow_add]
          congr 1
          omega

/-- The exponent of a number below 2^53 is what shifts it into place. -/
theorem exponentFor_one (hpos : 0 < n) (hlt : n < 2 ^ 53) :
    exponentFor n 1 = (n.log2 : Int) - 52 := by
  obtain ⟨hlog, hfull, -⟩ := shifted_bounds hpos hlt
  have hguess : (n.log2 : Int) - Nat.log2 1 - (precision - 1) = n.log2 - 52 := by
    have hone : Nat.log2 1 = 0 := by decide
    have hbits : (precision : Int) - 1 = 52 := by decide
    rw [hone, hbits]
    omega
  have hshift : (-((n.log2 : Int) - 52)).toNat = 52 - n.log2 := by omega
  have hmin : leastExponent = -1074 := rfl
  have henough : ¬n <<< (52 - n.log2) < 1 <<< (precision - 1) := Nat.not_lt_of_le hfull
  rw [exponentFor, hguess, overPower_one (by omega), hshift, Nat.div_one, if_neg henough]
  omega

/-- **Rounding shifts a number below 2^53 into place and loses nothing.** -/
theorem ofRatio_one (negative : Bool) (hpos : 0 < n) (hlt : n < 2 ^ 53) :
    ofRatio negative n 1 = finite negative (n <<< (52 - n.log2)) (n.log2 - 52) := by
  obtain ⟨hlog, -, hfits⟩ := shifted_bounds hpos hlt
  have hshift : (-((n.log2 : Int) - 52)).toNat = 52 - n.log2 := by omega
  have hnot : n <<< (52 - n.log2) ≠ 1 <<< precision := Nat.ne_of_lt hfits
  have hmax : ¬greatestExponent < (n.log2 : Int) - 52 := by
    have hgreatest : greatestExponent = 971 := rfl
    omega
  have hover : overPower n 1 (n.log2 - 52) = (n <<< (52 - n.log2), 1) := by
    rw [overPower_one (by omega), hshift]
  rw [ofRatio, if_neg (Nat.ne_of_gt hpos), exponentFor_one hpos hlt]
  simp only [hover, roundQuotient_one, if_neg hnot, if_neg hmax]

/-- **A whole number of magnitude below 2^53 is kept in double precision.** -/
theorem whole?_ofWhole {n : Int} (hlt : n.natAbs < 2 ^ 53) : (ofWhole n).whole? = some n := by
  rcases Nat.eq_zero_or_pos n.natAbs with hzero | hpos
  · obtain rfl : n = 0 := by omega
    decide
  · obtain ⟨hlog, -, -⟩ := shifted_bounds hpos hlt
    have hshift : (-((n.natAbs.log2 : Int) - 52)).toNat = 52 - n.natAbs.log2 := by omega
    have hpow : 0 < 2 ^ (52 - n.natAbs.log2) := Nat.two_pow_pos _
    rw [ofWhole, ofRatio_one _ hpos hlt, whole?]
    simp only [magnitude_of_nonpos (show (n.natAbs.log2 : Int) - 52 ≤ 0 by omega), hshift,
      Nat.shiftLeft_eq, Nat.one_mul, Nat.mul_mod_left, Nat.mul_div_cancel _ hpow, if_true,
      decide_eq_true_eq, Option.some.injEq]
    omega

end SborSchema.Binary64
