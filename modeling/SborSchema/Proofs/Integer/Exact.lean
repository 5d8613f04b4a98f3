/-
# Integers lose nothing as JSON

An integer is a number as JSON while its magnitude is at most 2^53 - 1, and the
canonical numeral of its value otherwise. So its text is read as the same JSON
value, and this value holds the integer: for a reader that keeps numbers as they
are, and for one that holds every number in double precision too, as the numbers
that it would round have become texts.

Key definitions: `Number.exact?`, `Number.inDouble?`, `Json.integer?`.
Key theorems: `Integer.ofText?_toJson`, `Integer.toJson_loses_nothing`.
-/
import SborSchema.Proofs.Binary64
import SborSchema.Proofs.Integer
import SborSchema.Proofs.Json.Numbers

namespace SborSchema

/-- The whole number that a number is, if it is one. -/
def Number.exact? : Number → Option Int
  | integer n => some n
  | float x => x.whole?

/-- What is left of a number once it is held in double precision, if it is a whole number. -/
def Number.inDouble? : Number → Option Int
  | integer n => (Binary64.ofWhole n).whole?
  | float x => x.whole?

/-- The integer that a JSON value holds as a number or as a numeral, for a given way to hold
numbers. -/
def Json.integer? (hold : Number → Option Int) : Json → Option Int
  | number m => hold m
  | string s => Digits.intValue? s.toList
  | _ => none

namespace Integer

variable (x : Integer)

theorem greatestExact_eq : greatestExact = 2 ^ 53 - 1 := by decide

/-- An integer of small magnitude is a number as JSON. -/
theorem toJson_of_le (h : x.value.natAbs ≤ 2 ^ 53 - 1) : x.toJson = .number (.integer x.value) := by
  rw [toJson_eq, greatestExact_eq, if_pos h]
  rfl

/-- Any other integer is its text. -/
theorem toJson_of_lt (h : 2 ^ 53 - 1 < x.value.natAbs) : x.toJson = .string x.text := by
  rw [toJson_eq, greatestExact_eq, if_neg (Nat.not_le_of_lt h)]

/-- The text of an integer is the canonical numeral of its value, and no other text is. -/
theorem eq_text_iff (s : String) :
    s = x.text ↔ Digits.Denotes s.toList x.value ∧ Digits.Canonical s.toList := by
  rw [Digits.canonical_iff_eq_ofInt, text, Digits.text, String.ext_iff, String.toList_ofList]

/-- **The JSON text of an integer is read as the JSON value that was written.** -/
theorem ofText?_toJson : Json.ofText? x.toJson.compact = some x.toJson := by
  by_cases hsmall : x.value.natAbs ≤ 2 ^ 53 - 1
  · rw [toJson_of_le x hsmall]
    exact Json.ofText?_compact_ofInt (by omega) (by omega)
  · rw [toJson_of_lt x (Nat.lt_of_not_le hsmall)]
    exact Json.ofText?_compact_string x.text

/-- The JSON value of an integer holds its value, if small whole numbers are held as they are. -/
theorem integer?_toJson {hold : Number → Option Int}
    (hhold : ∀ n : Int, n.natAbs ≤ 2 ^ 53 - 1 → hold (.integer n) = some n) :
    x.toJson.integer? hold = some x.value := by
  by_cases hsmall : x.value.natAbs ≤ 2 ^ 53 - 1
  · rw [toJson_of_le x hsmall, Json.integer?, hhold x.value hsmall]
  · rw [toJson_of_lt x (Nat.lt_of_not_le hsmall), Json.integer?, text, Digits.text,
      String.toList_ofList, Digits.intValue?_ofInt]

/-- **Integers lose nothing as JSON.** The JSON value of an integer is a number if and only if its
magnitude is at most 2^53 - 1, and this number is its value; otherwise it is a text, the canonical
numeral of the value. Its JSON text is read as this JSON value, which holds the value both exactly
and for readers with double precision only. Integers of any kinds have the same JSON value if and
only if their values are equal. -/
theorem toJson_loses_nothing (x : Integer) :
    (∀ m, x.toJson = .number m ↔ x.value.natAbs ≤ 2 ^ 53 - 1 ∧ m = .integer x.value) ∧
    (∀ s, x.toJson = .string s ↔ 2 ^ 53 - 1 < x.value.natAbs ∧
      Digits.Denotes s.toList x.value ∧ Digits.Canonical s.toList) ∧
    Json.ofText? x.toJson.compact = some x.toJson ∧
    x.toJson.integer? Number.exact? = some x.value ∧
    x.toJson.integer? Number.inDouble? = some x.value ∧
    ∀ y : Integer, x.toJson = y.toJson ↔ x.value = y.value := by
  refine ⟨fun m => ?number, fun s => ?text, x.ofText?_toJson, x.integer?_toJson fun _ _ => rfl,
    x.integer?_toJson fun n hn => Binary64.whole?_ofWhole (by omega), fun y => toJson_eq_iff⟩
  case number =>
    by_cases hsmall : x.value.natAbs ≤ 2 ^ 53 - 1
    · rw [toJson_of_le x hsmall, Json.number.injEq, eq_comm, and_iff_right hsmall]
    · rw [toJson_of_lt x (Nat.lt_of_not_le hsmall)]
      exact iff_of_false (fun h => by cases h) fun h => hsmall h.1
  case text =>
    by_cases hsmall : x.value.natAbs ≤ 2 ^ 53 - 1
    · rw [toJson_of_le x hsmall]
      exact iff_of_false (fun h => by cases h) fun h => Nat.not_lt_of_le hsmall h.1
    · have hlarge : 2 ^ 53 - 1 < x.value.natAbs := Nat.lt_of_not_le hsmall
      rw [toJson_of_lt x hlarge, Json.string.injEq, eq_comm, eq_text_iff, and_iff_right hlarge]

end Integer

end SborSchema
