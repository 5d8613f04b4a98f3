/-
# Integers as JSON

An integer becomes a number while its magnitude is small enough for double
precision, and its written form otherwise. Whether it has a place among the
wider machine integers on the way does not matter: a value that is small enough
has one in all of them. So the kind leaves no trace, and the value can be told.

Key theorems: `Integer.toJson_eq`, `Integer.toJson_eq_iff`.
-/
import SborSchema.Integer
import SborSchema.Proofs.Digits

namespace SborSchema

/-- The value under another kind, where that kind has it. -/
theorem IntegerKind.map_value_ofInt? (k : IntegerKind) (n : Int) :
    (k.ofInt? n).map Integer.value = if k.min ≤ n ∧ n ≤ k.max then some n else none := by
  simp only [ofInt?]
  split <;> rfl

namespace Integer

theorem greatestExact_le : (greatestExact : Int) ≤ IntegerKind.i64.max := by decide

/-- What an integer is on its way to JSON: its value if this is a signed number of 64 bits. -/
theorem bind_signed128? (x : Integer) :
    (x.signed128?.bind fun n => (IntegerKind.i64.ofInt? n).map value) =
      if IntegerKind.i64.min ≤ x.value ∧ x.value ≤ IntegerKind.i64.max then some x.value
      else none := by
  have hmin : IntegerKind.i128.min ≤ IntegerKind.i64.min := by decide
  have hmax : IntegerKind.i64.max ≤ IntegerKind.i128.max := by decide
  simp only [signed128?, IntegerKind.map_value_ofInt?]
  by_cases hkind : x.kind = .u128
  · rw [if_pos hkind]
    by_cases hin : IntegerKind.i128.min ≤ x.value ∧ x.value ≤ IntegerKind.i128.max
    · rw [if_pos hin, Option.bind_some]
    · have hout : ¬(IntegerKind.i64.min ≤ x.value ∧ x.value ≤ IntegerKind.i64.max) := by omega
      rw [if_neg hin, if_neg hout, Option.bind_none]
  · rw [if_neg hkind, Option.bind_some]

/-- **An integer is a number as JSON while double precision keeps it, and else a text.** -/
theorem toJson_eq (x : Integer) :
    x.toJson = if x.value.natAbs ≤ greatestExact then .ofInt x.value else .string x.text := by
  have hexact := greatestExact_le
  have hmin : IntegerKind.i64.min ≤ -(greatestExact : Int) := by decide
  rw [toJson, bind_signed128?]
  by_cases hin : IntegerKind.i64.min ≤ x.value ∧ x.value ≤ IntegerKind.i64.max
  · rw [if_pos hin]
  · have hlarge : ¬x.value.natAbs ≤ greatestExact := by omega
    rw [if_neg hin, if_neg hlarge]

/-- **Two integers are the same as JSON if and only if their values are equal**, whatever
their kinds. -/
theorem toJson_eq_iff {x y : Integer} : x.toJson = y.toJson ↔ x.value = y.value := by
  constructor
  · intro h
    rw [toJson_eq, toJson_eq] at h
    split at h <;> split at h
    · exact Number.integer.inj (Json.number.inj h)
    · cases h
    · cases h
    · exact Digits.text_injective (Json.string.inj h)
  · intro h
    rw [toJson_eq, toJson_eq, text, text, h]

end Integer
end SborSchema
