/-
# Written whole numbers are read back

A whole number is written with its digits, after a minus sign if it is negative.
The reader takes all digits there are and then looks for a fraction or an
exponent, so it reads the number again if what stands behind cannot belong to a
number, and if 64 bits hold the number.

Key definitions: `Json.EndsNumber`.
Key theorems: `Json.readValue_writeInt`, `Json.ofText?_compact_ofInt`.
-/
import SborSchema.Proofs.Digits.Numeral
import SborSchema.Proofs.Json.ReadBack
import SborSchema.Proofs.Lists

namespace SborSchema.Json

/-- What may follow a number: nothing that the reader takes for a part of it. -/
def EndsNumber (rest : List Char) : Prop :=
  ∀ c ∈ rest.head?, Digits.isDigit c = false ∧ c ≠ '.' ∧ c ≠ 'e' ∧ c ≠ 'E'

theorem endsNumber_nil : EndsNumber [] := by simp [EndsNumber]

variable {rest : List Char} {width limit : Nat}

/-! ### The digits of a number -/

/-- No zero stands in front of other digits. -/
theorem leadingZero_ofNat (n : Nat) :
    ((Digits.ofNat n).isEmpty ||
      ((Digits.ofNat n).head? == some '0' && (Digits.ofNat n).length != 1)) = false := by
  rcases Nat.eq_zero_or_pos n with rfl | hpos
  · decide
  · obtain ⟨d, ds, hd, hds⟩ := Digits.exists_ofNat_eq_cons n hpos
    have hne : d ≠ '0' := by
      rintro rfl
      exact absurd hd.1 (by decide)
    rw [hds]
    simp [hne]

/-- What follows is neither a fraction nor an exponent. -/
theorem readParts?_ofNat (hrest : EndsNumber rest) (n : Nat) :
    readParts? (Digits.ofNat n ++ rest) = some (⟨Digits.ofNat n, none, none⟩, rest) := by
  have hdigits : ∀ c ∈ Digits.ofNat n, Digits.isDigit c = true :=
    fun _ => Digits.isDigit_of_mem_ofNat
  have hend : ∀ c ∈ rest.head?, Digits.isDigit c = false := fun c hc => (hrest c hc).1
  have hfraction : readFraction? rest = some (none, rest) := by
    cases rest with
    | nil => rfl
    | cons c rest =>
      unfold readFraction?
      split
      · next h => exact absurd (List.cons.inj h).1 (hrest c rfl).2.1
      · rfl
  have hscale : readScale? rest = some (none, rest) := by
    cases rest with
    | nil => rfl
    | cons c rest =>
      obtain ⟨-, -, hlower, hupper⟩ := hrest c rfl
      rw [readScale?, if_neg (not_or.mpr ⟨hlower, hupper⟩)]
  simp only [readParts?, takeWhile_append_exact hdigits hend, dropWhile_append_exact hdigits hend,
    leadingZero_ofNat, Bool.false_eq_true, if_false, hfraction, hscale, Option.bind_eq_bind,
    Option.bind_some, Option.pure_def]

/-! ### Whole numbers -/

/-- The digits of a natural number of 64 bits are read as it. -/
theorem readNumber_ofNat (hrest : EndsNumber rest) {n : Nat} (hn : n < 2 ^ 64) :
    readNumber false (Digits.ofNat n ++ rest) = some (.integer n, rest) := by
  have hword : n ≤ greatestWord := Nat.le_of_lt_succ hn
  have hvalue : wholeOf? false (Digits.ofNat n) = some (.integer n) := by
    simp only [wholeOf?, Digits.natValue_ofNat, hword, Bool.false_eq_true, if_false, if_true]
  rw [readNumber, readParts?_ofNat hrest]
  simp only [Option.bind_eq_bind, Option.bind_some, NumberParts.value?, Option.isNone_none,
    Bool.and_self, if_true, hvalue]
  rfl

/-- After a minus sign the digits are read as a negative number, if it has a place among the
signed numbers of 64 bits. -/
theorem readNumber_ofNat_negative (hrest : EndsNumber rest) {n : Nat} (hpos : 0 < n)
    (hn : n ≤ 2 ^ 63) :
    readNumber true (Digits.ofNat n ++ rest) = some (.integer (-(n : Int)), rest) := by
  have hword : 0 < n ∧ n ≤ 1 <<< 63 := ⟨hpos, hn⟩
  have hvalue : wholeOf? true (Digits.ofNat n) = some (.integer (-(n : Int))) := by
    simp only [wholeOf?, Digits.natValue_ofNat, hword, and_self, if_true]
  rw [readNumber, readParts?_ofNat hrest]
  simp only [Option.bind_eq_bind, Option.bind_some, NumberParts.value?, Option.isNone_none,
    Bool.and_self, if_true, hvalue]
  rfl

/-! ### Values -/

theorem digit_ne {c x : Char} (hc : Digits.isDigit c = true) (hx : Digits.isDigit x = false) :
    c ≠ x := by
  rintro rfl
  rw [hc] at hx
  cases hx

/-- A value that starts with a digit is read as a number. -/
theorem readScalar_digit {c : Char} (hc : Digits.isDigit c = true) (cs : List Char) :
    readScalar (c :: cs) = (readNumber false (c :: cs)).map fun r => (.number r.1, r.2) := by
  unfold readScalar
  split
  · next h => exact absurd (List.cons.inj h).1 (digit_ne hc (by decide))
  · next h => exact absurd (List.cons.inj h).1 (digit_ne hc (by decide))
  · next h => exact absurd (List.cons.inj h).1 (digit_ne hc (by decide))
  · next h => exact absurd (List.cons.inj h).1 (digit_ne hc (by decide))
  · next h => exact absurd (List.cons.inj h).1 (digit_ne hc (by decide))
  · rfl

/-- **A written whole number is read back if 64 bits hold it**, whatever follows that cannot
belong to it. -/
theorem readValue_writeInt (hrest : EndsNumber rest) {n : Int} (hlow : -2 ^ 63 ≤ n)
    (hhigh : n < 2 ^ 64) :
    readValue width limit ((ofInt n).write rest) = some (ofInt n, rest) := by
  have hwrite : (ofInt n).write rest = Digits.ofInt n ++ rest := by
    rw [ofInt, write, Number.text, Digits.text, String.toList_ofList]
  rw [hwrite, Digits.ofInt]
  by_cases hneg : n < 0
  · have hvalue : -(n.natAbs : Int) = n := by omega
    have hread := readNumber_ofNat_negative hrest (n := n.natAbs) (by omega) (by omega)
    rw [if_pos hneg, List.cons_append, readValue_scalar (by decide) (by decide) (by decide),
      readScalar, hread, hvalue]
    rfl
  · have hvalue : (n.natAbs : Int) = n := by omega
    have hread := readNumber_ofNat hrest (n := n.natAbs) (by omega)
    rw [if_neg hneg]
    cases hdigits : Digits.ofNat n.natAbs with
    | nil => exact absurd hdigits Nat.toDigits_ne_nil
    | cons d ds =>
      have hd : Digits.isDigit d = true :=
        Digits.isDigit_of_mem_ofNat (hdigits ▸ List.mem_cons_self)
      have hblank : isBlank d = false := by
        simp only [isBlank, Bool.or_eq_false_iff, decide_eq_false_iff_not]
        exact ⟨⟨⟨digit_ne hd (by decide), digit_ne hd (by decide)⟩, digit_ne hd (by decide)⟩,
          digit_ne hd (by decide)⟩
      rw [hdigits, List.cons_append] at hread
      rw [List.cons_append, readValue_scalar hblank (digit_ne hd (by decide))
        (digit_ne hd (by decide)), readScalar_digit hd, hread, hvalue]
      rfl

/-- **A text that holds a whole number of 64 bits is read as it.** -/
theorem ofText?_compact_ofInt {n : Int} (hlow : -2 ^ 63 ≤ n) (hhigh : n < 2 ^ 64) :
    ofText? (ofInt n).compact = some (ofInt n) := by
  simp only [ofText?, ofTextWithin?, readAll?, compact, String.toList_ofList,
    readValue_writeInt endsNumber_nil hlow hhigh]
  rfl

/-- A text that holds a string is read as it. -/
theorem ofText?_compact_string (s : String) : ofText? (string s).compact = some (string s) := by
  have hnesting : nestingOfText (string s).compact = 0 := nestingOfText_compact (.string s)
  rw [ofText?, ofTextWithin?_compact (.string s), hnesting, if_pos (Nat.zero_le _)]

end SborSchema.Json
