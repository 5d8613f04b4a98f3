/-
# Written integers are read back

Of the texts that are read as integers of any length, only the numerals are taken.
What is left of the reader then is plain (`Digits.intValue?_eq_bigValue?`): digits, and
a minus sign in front or none. An integer is written with the digits of its magnitude,
after a minus sign if it is negative. Reading such a text gives the integer again.

Key definitions: `Digits.intValue?`.
Key theorems: `Digits.intValue?_eq_bigValue?`, `Digits.intValue?_ofInt`, `Digits.text_injective`.
-/
import SborSchema.Digits

namespace SborSchema.Digits

theorem isDigit_of_mem_ofNat {n : Nat} {c : Char} (hc : c ∈ ofNat n) : isDigit c = true := by
  have hdigit := Nat.isDigit_of_mem_toDigits (by decide) (by decide) hc
  simp only [Char.isDigit, Bool.and_eq_true, decide_eq_true_eq] at hdigit
  simp only [isDigit, Bool.and_eq_true, decide_eq_true_eq]
  exact hdigit

theorem natValue_ofNat (n : Nat) : natValue (ofNat n) = n := Nat.ofDigitChars_ten_toDigits

theorem natValue?_ofNat (n : Nat) : natValue? (ofNat n) = some n := by
  have hne : (ofNat n).isEmpty = false := List.isEmpty_eq_false_iff.mpr Nat.toDigits_ne_nil
  have hall : (ofNat n).all isDigit = true := List.all_eq_true.mpr fun _ => isDigit_of_mem_ofNat
  simp only [natValue?, hne, hall, natValue_ofNat, Bool.not_false, Bool.and_self, if_true]

/-- The number of a non-empty list of digits that a minus sign may precede. -/
def intValue? : List Char → Option Int
  | '-' :: ds => (natValue? ds).map fun n => -(n : Int)
  | ds => (natValue? ds).map fun n => (n : Int)

theorem isDigit_head {ds : List Char} (hds : ∀ c ∈ ds, isDigit c = true) {c : Char}
    (hc : isDigit c = false) : ds.head? ≠ some c := by
  intro hhead
  have hdigit := hds c (List.mem_of_mem_head? hhead)
  exact Bool.false_ne_true (hc.symm.trans hdigit)

/-- Digits alone are read as they stand. -/
theorem unsignedValue?_of_isDigit {ds : List Char} (hne : ds ≠ [])
    (hds : ∀ c ∈ ds, isDigit c = true) : unsignedValue? ds = some (natValue ds) := by
  have hplus : ds.head? ≠ some '+' := isDigit_head hds (by decide)
  have hgroup : ds.head? ≠ some '_' := isDigit_head hds (by decide)
  have hfilter : ds.filter (· ≠ '_') = ds := by
    refine List.filter_eq_self.mpr fun c hc => decide_eq_true ?_
    rintro rfl
    exact absurd (hds '_' hc) (by decide)
  have hvalue : groupedValue? ds = some (natValue ds) := by
    have hstart : ¬ (ds.isEmpty || ds.head? == some '_') = true := by simp [hne, hgroup]
    simp only [groupedValue?, if_neg hstart, hfilter, List.all_eq_true.mpr hds, if_true]
  unfold unsignedValue?
  split
  · exact absurd rfl hplus
  · exact hvalue

/-- **Of numerals, the reader of integers of any length takes the sign and the digits.** -/
theorem intValue?_eq_bigValue? (cs : List Char) :
    intValue? cs = if isNumeral cs then bigValue? cs else none := by
  have hread (ds : List Char) : natValue? ds =
      if !ds.isEmpty && ds.all isDigit then unsignedValue? ds else none := by
    rw [natValue?]
    split
    · next h =>
      rw [Bool.and_eq_true, Bool.not_eq_true', List.isEmpty_eq_false_iff, List.all_eq_true] at h
      exact (unsignedValue?_of_isDigit h.1 h.2).symm
    · rfl
  unfold intValue? isNumeral bigValue?
  split
  · next ds =>
    simp only [hread]
    split
    · next h =>
      rw [Bool.and_eq_true, List.all_eq_true] at h
      rw [if_neg (isDigit_head h.2 (by decide))]
    · rfl
  · next ds hminus =>
    simp only [hread]
    split <;> rfl

/-- Text without a minus sign in front is read as a natural number. -/
theorem intValue?_of_isDigit {ds : List Char} (hds : ∀ c ∈ ds, isDigit c = true) :
    intValue? ds = (natValue? ds).map fun n => (n : Int) := by
  unfold intValue?
  split
  · exact absurd (hds '-' List.mem_cons_self) (by decide)
  · rfl

/-- **An integer is read back from its written form.** -/
theorem intValue?_ofInt (n : Int) : intValue? (ofInt n) = some n := by
  simp only [ofInt]
  split
  · next hneg =>
    have hvalue : -(n.natAbs : Int) = n := by omega
    rw [intValue?, natValue?_ofNat]
    exact congrArg some hvalue
  · next hneg =>
    have hvalue : (n.natAbs : Int) = n := by omega
    rw [intValue?_of_isDigit fun _ => isDigit_of_mem_ofNat, natValue?_ofNat]
    exact congrArg some hvalue

/-- Different integers have different written forms. -/
theorem text_injective {m n : Int} (h : text m = text n) : m = n := by
  have hm := intValue?_ofInt m
  rw [String.ofList_injective h, intValue?_ofInt] at hm
  exact (Option.some.inj hm).symm

end SborSchema.Digits
