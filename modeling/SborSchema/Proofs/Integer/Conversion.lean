/-
# Conversions to and from machine types

Every conversion of an integer goes by a number of 128 bits: a signed one if
there is one, and an unsigned one if not. Only an unsigned kind of 128 bits has
values too large for the signed one, and these are not negative, so one of the
two always holds the value. So the detour leaves no trace: a conversion gives the
value wherever the target has it, and nothing elsewhere.

Key theorems: `Integer.signed128?_eq`, `Integer.unsigned128?_eq`,
`Integer.toMachine?_eq_machine?`, `Integer.conversions_keep_value`.
-/
import Mathlib.Algebra.Group.Int.Defs
import SborSchema.Proofs.Integer
import SborSchema.Proofs.Schema.Number

namespace SborSchema

namespace IntegerKind

theorem max_i128 : i128.max = 2 ^ 127 - 1 := by decide

theorem min_u128 : u128.min = 0 := by decide

/-- A kind that is not the widest one has no value above the signed ones of 128 bits. -/
theorem max_le_of_ne {k : IntegerKind} (h : k ≠ .u128) : k.max ≤ i128.max := by
  obtain ⟨_ | _, _ | _ | _ | _ | _⟩ := k
  case false.w128 => exact absurd rfl h
  all_goals decide

theorem min_i128_le (k : IntegerKind) : i128.min ≤ k.min := by
  obtain ⟨_ | _, _ | _ | _ | _ | _⟩ := k
  all_goals decide

/-- A machine type has the numbers of its range. -/
theorem map_value_machine? (k : IntegerKind) (n : Int) :
    (k.machine? n).map Machine.value = if k.Has n then some n else none := by
  by_cases hn : k.Has n
  · have hrange : k.min ≤ n ∧ n ≤ k.max := (k.has_iff n).mp hn
    rw [machine?, dif_pos hrange, if_pos hn, Option.map_some]
  · have hrange : ¬(k.min ≤ n ∧ n ≤ k.max) := fun h => hn ((k.has_iff n).mpr h)
    rw [machine?, dif_neg hrange, if_neg hn, Option.map_none]

theorem machine?_value {k : IntegerKind} (v : k.Machine) : k.machine? v.value = some v :=
  dif_pos v.inRange

end IntegerKind

namespace Integer

variable (x : Integer)

/-- The signed number of 128 bits is the value, and is missing for values above the greatest. -/
theorem signed128?_eq :
    x.signed128? = if x.value ≤ 2 ^ 127 - 1 then some x.value else none := by
  have hmin := x.kind.min_i128_le
  have hrange := x.inRange
  have hgreatest := IntegerKind.max_i128
  rw [signed128?, IntegerKind.map_value_ofInt?]
  by_cases hkind : x.kind = .u128
  · rw [if_pos hkind]
    by_cases hvalue : x.value ≤ 2 ^ 127 - 1
    · rw [if_pos hvalue, if_pos (by omega)]
    · rw [if_neg hvalue, if_neg (by omega)]
  · have hmax := IntegerKind.max_le_of_ne hkind
    have hvalue : x.value ≤ 2 ^ 127 - 1 := by omega
    rw [if_neg hkind, if_pos hvalue]

/-- The unsigned number of 128 bits is the value, and is missing for negative ones. -/
theorem unsigned128?_eq :
    x.unsigned128? = if x.value < 0 then none else some x.value := by
  have hrange := x.inRange
  have hleast := IntegerKind.min_u128
  by_cases hkind : x.kind = .u128
  · have hnonneg : ¬x.value < 0 := by
      rw [hkind] at hrange
      omega
    rw [unsigned128?, if_pos hkind, if_neg hnonneg]
  · have hmax := IntegerKind.max_le_of_ne hkind
    have hwidest : IntegerKind.i128.max ≤ IntegerKind.u128.max := by decide
    have hsigned : x.signed128? = some x.value := by rw [signed128?, if_neg hkind]
    rw [unsigned128?, if_neg hkind, hsigned, Option.bind_some, IntegerKind.map_value_ofInt?]
    by_cases hnegative : x.value < 0
    · rw [if_pos hnegative, if_neg (by omega)]
    · rw [if_neg hnegative, if_pos (by omega)]

theorem isNegative_iff : x.isNegative = true ↔ x.value < 0 := by
  rw [isNegative, signed128?_eq]
  by_cases hvalue : x.value ≤ 2 ^ 127 - 1
  · rw [if_pos hvalue]
    exact decide_eq_true_iff
  · rw [if_neg hvalue]
    exact iff_of_false Bool.false_ne_true (by omega)

/-- **The detour by a number of 128 bits does not matter to a conversion.** -/
theorem toMachine?_eq_machine? (k : IntegerKind) : x.toMachine? k = k.machine? x.value := by
  rw [toMachine?, signed128?_eq]
  by_cases hvalue : x.value ≤ 2 ^ 127 - 1
  · rw [if_pos hvalue]
  · have hnonneg : ¬x.value < 0 := by omega
    rw [if_neg hvalue, unsigned128?_eq, if_neg hnonneg, Option.bind_some]

/-- **Conversions keep the value.** An integer is converted to a machine type if and only if the
type has its value, and this is then the result. A machine value becomes an integer of the kind
of its type and with the same value, which is converted back to it. The signed number of 128 bits
is missing only for values above the greatest of them, and the unsigned one only for negative
values; the integer is negative if its value is. -/
theorem conversions_keep_value (x : Integer) (k : IntegerKind) :
    (x.toMachine? k).map (·.value) = (if k.Has x.value then some x.value else none) ∧
    (∀ v : k.Machine, (ofMachine v).value = v.value ∧ (ofMachine v).kind = k ∧
      (ofMachine v).toMachine? k = some v) ∧
    x.signed128? = (if x.value ≤ 2 ^ 127 - 1 then some x.value else none) ∧
    x.unsigned128? = (if x.value < 0 then none else some x.value) ∧
    (x.isNegative = true ↔ x.value < 0) := by
  refine ⟨?_, fun v => ⟨rfl, rfl, ?_⟩, x.signed128?_eq, x.unsigned128?_eq, x.isNegative_iff⟩
  · rw [toMachine?_eq_machine?]
    exact k.map_value_machine? x.value
  · rw [toMachine?_eq_machine?]
    exact k.machine?_value v

end Integer

end SborSchema
