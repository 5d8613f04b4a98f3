/-
# Integers are read from their numerals

The text of an integer node is an integer of the declared kind if it is a
numeral of a number that the kind has. Texts that are no numerals are malformed;
numerals of other numbers are out of range, and those of negative numbers under a
kind without them are told so. An integer that was read is written as the
canonical numeral of its value, which is read as the same integer
(`number_reads_numerals`).

Key definitions: `IntegerKind.Has`.
Key theorems: `IntegerKind.has_iff`, `Integer.read_of_has`, `Integer.read_of_not_has`,
`Cause.message_outsideRange_ne`, `number_reads_numerals`.
-/
import Mathlib.Algebra.Group.Int.Defs
import SborSchema.Proofs.Digits.Numeral
import SborSchema.Proofs.Schema.Scalar
import SborSchema.Proofs.Tree.Kind

namespace SborSchema

/-! ### Ranges -/

/-- The values of a kind: those of its number of bits, one of which is for the sign if there is
one. -/
def IntegerKind.Has (k : IntegerKind) (n : Int) : Prop :=
  if k.signed then -2 ^ (k.width.bits - 1) ≤ n ∧ n < 2 ^ (k.width.bits - 1)
  else 0 ≤ n ∧ n < 2 ^ k.width.bits

/-- The values of a kind are those between its least and its greatest one. -/
theorem IntegerKind.has_iff (k : IntegerKind) (n : Int) : k.Has n ↔ k.min ≤ n ∧ n ≤ k.max := by
  obtain ⟨signed, width⟩ := k
  cases signed <;> cases width <;> simp [Has, min, max, Width.bits] <;> omega

instance (k : IntegerKind) (n : Int) : Decidable (k.Has n) := decidable_of_iff' _ (k.has_iff n)

/-! ### Reading -/

namespace Integer

variable {k : IntegerKind} {text : String} {n : Int}

/-- Text that is no numeral is malformed. -/
theorem read_of_not_denotes (h : ¬∃ n, Digits.Denotes text.toList n) :
    read k text = .error (.notInteger k text) := by
  have hvalue : Digits.intValue? text.toList = none := Digits.intValue?_eq_none_iff.mpr h
  simp only [read_eq, hvalue]

/-- A numeral of a number that the kind has is read. -/
theorem read_of_has (h : Digits.Denotes text.toList n) (hn : k.Has n) :
    ∃ x, read k text = .ok x ∧ x.kind = k ∧ x.value = n := by
  have hvalue : Digits.intValue? text.toList = some n := Digits.intValue?_eq_some_iff.mpr h
  have hrange : k.min ≤ n ∧ n ≤ k.max := (k.has_iff n).mp hn
  have hinteger : k.ofInt? n = some ⟨k, n, hrange⟩ := dif_pos hrange
  refine ⟨⟨k, n, hrange⟩, ?_, rfl, rfl⟩
  simp only [read_eq, hvalue, ofValue, hinteger]

/-- A numeral of another number is out of range, and the cause tells negative numbers under a kind
without them apart. -/
theorem read_of_not_has (h : Digits.Denotes text.toList n) (hn : ¬k.Has n) :
    read k text = .error
      (if k.signed = false ∧ n < 0 then .negativeUnsigned k text else .outsideRange k text) := by
  have hvalue : Digits.intValue? text.toList = some n := Digits.intValue?_eq_some_iff.mpr h
  have hnone : k.ofInt? n = none := by
    rw [IntegerKind.ofInt?_eq_none, ← k.has_iff n]
    exact hn
  simp only [read_eq, hvalue, ofValue, hnone]
  by_cases hnegative : k.signed = false ∧ n < 0
  · rw [if_pos hnegative, hnegative.1, decide_eq_true hnegative.2]
    rfl
  · rw [if_neg hnegative, if_neg]
    rw [Bool.and_eq_true, Bool.not_eq_true', decide_eq_true_eq]
    exact hnegative

/-- What was read stands in the text, and is of the kind. -/
theorem denotes_of_read {x : Integer} (h : read k text = .ok x) :
    Digits.Denotes text.toList x.value ∧ x.kind = k := by
  obtain ⟨hvalue, hkind⟩ := read_eq_ok h
  exact ⟨Digits.intValue?_eq_some_iff.mp hvalue, hkind⟩

/-- An integer is known by its kind and its value. -/
theorem ext {x y : Integer} (hkind : x.kind = y.kind) (hvalue : x.value = y.value) : x = y := by
  obtain ⟨kind, value, inRange⟩ := x
  obtain rfl : kind = y.kind := hkind
  obtain rfl : value = y.value := hvalue
  rfl

end Integer

/-- A text begins as its first part does. -/
theorem head?_toList_append {s : String} {c : Char} (h : s.toList.head? = some c) (t : String) :
    (s ++ t).toList.head? = some c := by
  rw [String.toList_append, List.head?_append, h, Option.some_or]

/-- The wordings for numbers out of range differ in their first letters. -/
theorem Cause.message_outsideRange_ne (k k' : IntegerKind) (text text' : String) :
    (Cause.outsideRange k text).message ≠ (Cause.negativeUnsigned k' text').message := by
  have hvalue : "value ".toList.head? = some 'v' := by decide
  have hnegative : "negative value ".toList.head? = some 'n' := by decide
  have houtside : (Cause.outsideRange k text).message.toList.head? = some 'v' := by
    iterate 8 apply head?_toList_append
    exact hvalue
  have hunsigned : (Cause.negativeUnsigned k' text').message.toList.head? = some 'n' := by
    iterate 3 apply head?_toList_append
    exact hnegative
  intro h
  rw [h, hunsigned] at houtside
  exact absurd (Option.some.inj houtside) (by decide)

/-- An integer node is read as its text is, and fails at its own path. -/
theorem Schema.number_parseGated (l : Labels) (k : IntegerKind) (text : String) (p : Path) :
    Schema.number.parseGated (.leaf l (.integer k text)) p =
      (Integer.read k text).mapError fun c => ⟨c, p⟩ := by
  have hgate : Schema.number.gate (.leaf l (.integer k text)) p = .ok () :=
    if_pos (KindSet.contains_integers.mpr ⟨k, rfl⟩)
  rw [Schema.parseGated, hgate, ok_bind]
  simp only [Schema.number, Schema.readNumber, Schema.readLeaf]
  cases Integer.read k text <;> rfl

/-- **An integer node holds an integer of its kind if its text is a numeral of a number that the
kind has.** Other texts are malformed, and numerals of other numbers out of range, with a wording
of their own for negative numbers under a kind without signs. The text of an integer that was read
is the one canonical numeral of its value and is read as the same integer, so two texts are read as
the same integer if and only if they are numerals of one number. -/
theorem number_reads_numerals (k : IntegerKind) (l : Labels) (p : Path) :
    let outcome (text : String) := Schema.number.parseGated (.leaf l (.integer k text)) p
    (∀ text err, outcome text = .error err ∧ err.cause.kind = .malformed ↔
      (¬∃ n, Digits.Denotes text.toList n) ∧ err = ⟨.notInteger k text, p⟩) ∧
    (∀ text n, Digits.Denotes text.toList n →
      (k.Has n → ∃ x, outcome text = .ok x ∧ x.kind = k ∧ x.value = n) ∧
      (¬k.Has n → ∃ c, outcome text = .error ⟨c, p⟩ ∧ c.kind = .outOfRange ∧
        (c.message = "negative value " ++ text ++ " is not allowed for unsigned " ++ k.name ↔
          k.signed = false ∧ n < 0))) ∧
    (∀ text x, outcome text = .ok x →
      (∀ s : String, Digits.Denotes s.toList x.value ∧ Digits.Canonical s.toList ↔ s = x.text) ∧
      outcome x.text = .ok x) ∧
    ∀ text text' x x', outcome text = .ok x → outcome text' = .ok x' →
      (x = x' ↔ ∃ n, Digits.Denotes text.toList n ∧ Digits.Denotes text'.toList n) := by
  intro outcome
  have houtcome (text : String) : outcome text = (Integer.read k text).mapError fun c => ⟨c, p⟩ :=
    Schema.number_parseGated l k text p
  have hok {text : String} {x : Integer} : outcome text = .ok x ↔ Integer.read k text = .ok x := by
    rw [houtcome, mapError_eq_ok]
  refine ⟨?malformed, ?numeral, ?written, ?same⟩
  case malformed =>
    intro text err
    constructor
    · rintro ⟨herr, hkind⟩
      obtain ⟨c, hc, rfl⟩ := mapError_eq_error.mp ((houtcome text).symm.trans herr)
      rcases Integer.read_eq_error hc with ⟨hnone, rfl⟩ | ⟨n, -, -, ⟨-, -, rfl⟩ | ⟨-, rfl⟩⟩
      · exact ⟨Digits.intValue?_eq_none_iff.mp hnone, rfl⟩
      · cases hkind
      · cases hkind
    · rintro ⟨hnone, rfl⟩
      rw [houtcome, Integer.read_of_not_denotes hnone]
      exact ⟨rfl, rfl⟩
  case numeral =>
    intro text n hn
    constructor
    · intro hhas
      obtain ⟨x, hx, hkind, hvalue⟩ := Integer.read_of_has hn hhas
      exact ⟨x, hok.mpr hx, hkind, hvalue⟩
    · intro hnot
      have hread := Integer.read_of_not_has hn hnot
      rw [houtcome, hread]
      by_cases hnegative : k.signed = false ∧ n < 0
      · rw [if_pos hnegative]
        exact ⟨.negativeUnsigned k text, rfl, rfl, iff_of_true rfl hnegative⟩
      · rw [if_neg hnegative]
        refine ⟨.outsideRange k text, rfl, rfl, iff_of_false ?_ hnegative⟩
        exact Cause.message_outsideRange_ne k k text text
  case written =>
    intro text x hx
    obtain ⟨-, rfl⟩ := Integer.denotes_of_read (hok.mp hx)
    refine ⟨fun s => ?_, hok.mpr x.read_text⟩
    rw [Digits.canonical_iff_eq_ofInt, Integer.text, Digits.text, String.ext_iff,
      String.toList_ofList]
  case same =>
    intro text text' x x' hx hx'
    obtain ⟨hdenotes, hkind⟩ := Integer.denotes_of_read (hok.mp hx)
    obtain ⟨hdenotes', hkind'⟩ := Integer.denotes_of_read (hok.mp hx')
    constructor
    · rintro rfl
      exact ⟨x.value, hdenotes, hdenotes'⟩
    · rintro ⟨n, hn, hn'⟩
      have hvalue : x.value = x'.value :=
        (hdenotes.unique hn).trans (hn'.unique hdenotes')
      exact Integer.ext (hkind.trans hkind'.symm) hvalue

/-- As eight unsigned bits, `-00` and `0` are the same integer and `0` is its text, `256` has no
place, and `-1` and `1_0` are refused with other words. -/
theorem number_reads_numerals_u8 :
    let outcome (text : String) := Schema.number.parseGated (.leaf {} (.integer .u8 text)) .root
    (∃ x, outcome "-00" = .ok x ∧ outcome "0" = .ok x ∧ x.text = "0") ∧
    (∃ c, outcome "256" = .error ⟨c, Path.root⟩ ∧ c.kind = .outOfRange ∧
      c.message ≠ "negative value 256 is not allowed for unsigned U8") ∧
    (∃ c, outcome "-1" = .error ⟨c, Path.root⟩ ∧ c.kind = .outOfRange ∧
      c.message = "negative value -1 is not allowed for unsigned U8") ∧
    outcome "1_0" = .error ⟨.notInteger .u8 "1_0", Path.root⟩ := by
  intro outcome
  obtain ⟨hmalformed, hnumeral, hwritten, hsame⟩ := number_reads_numerals .u8 {} .root
  have hzero : Digits.Denotes "0".toList 0 := Digits.intValue?_eq_some_iff.mp (by decide)
  have hsigned : Digits.Denotes "-00".toList 0 := Digits.intValue?_eq_some_iff.mp (by decide)
  have hlarge : Digits.Denotes "256".toList 256 := Digits.intValue?_eq_some_iff.mp (by decide)
  have hbelow : Digits.Denotes "-1".toList (-1) := Digits.intValue?_eq_some_iff.mp (by decide)
  have hnone : ¬∃ n, Digits.Denotes "1_0".toList n :=
    Digits.intValue?_eq_none_iff.mp (by decide)
  have hhas : IntegerKind.u8.Has 0 := by decide
  refine ⟨?_, ?_, ?_, ?_⟩
  · obtain ⟨x, hx, -, hvalue⟩ := (hnumeral "-00" 0 hsigned).1 hhas
    obtain ⟨x', hx', -, -⟩ := (hnumeral "0" 0 hzero).1 hhas
    obtain rfl : x = x' := (hsame "-00" "0" x x' hx hx').mpr ⟨0, hsigned, hzero⟩
    have htext : "0" = x.text := by
      refine ((hwritten "-00" x hx).1 "0").mp ⟨?_, .inl (by decide)⟩
      rw [hvalue]
      exact hzero
    exact ⟨x, hx, hx', htext.symm⟩
  · obtain ⟨c, hc, hkind, hmessage⟩ := (hnumeral "256" 256 hlarge).2 (by decide)
    exact ⟨c, hc, hkind, fun h => absurd (hmessage.mp h) (by decide)⟩
  · obtain ⟨c, hc, hkind, hmessage⟩ := (hnumeral "-1" (-1) hbelow).2 (by decide)
    exact ⟨c, hc, hkind, hmessage.mpr (by decide)⟩
  · exact ((hmalformed "1_0" _).mpr ⟨hnone, rfl⟩).1

end SborSchema
