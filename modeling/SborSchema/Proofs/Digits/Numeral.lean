/-
# Numerals

A numeral is one or more digits, with a minus sign in front or without one, and
stands for an integer: the last digit counts ones, the one before it tens, and so
on. The reader of integers takes exactly the numerals, and gives what they stand
for (`intValue?_eq_some_iff`). Many numerals stand for one integer, since zeros
may come first and zero may have a sign. One of them has nothing needless in it
(`Canonical`), and this is the written form (`canonical_iff_eq_ofInt`).

Key definitions: `Digits.place`, `Digits.Denotes`, `Digits.Canonical`.
Key theorems: `Digits.intValue?_eq_some_iff`, `Digits.intValue?_eq_none_iff`,
`Digits.canonical_iff_eq_ofInt`.
-/
import Mathlib.Data.List.Induction
import Mathlib.Data.Nat.Digits.Defs
import SborSchema.Proofs.Digits

namespace SborSchema.Digits

/-- The number of a list of digits, by the powers of ten that they count. -/
def place (ds : List Char) : Nat := Nat.ofDigits 10 (ds.reverse.map digitValue)

/-- The numerals of an integer. -/
inductive Denotes : List Char → Int → Prop
  | plain {ds : List Char} (hne : ds ≠ []) (hds : ∀ d ∈ ds, '0' ≤ d ∧ d ≤ '9') :
      Denotes ds (place ds)
  | negated {ds : List Char} (hne : ds ≠ []) (hds : ∀ d ∈ ds, '0' ≤ d ∧ d ≤ '9') :
      Denotes ('-' :: ds) (-(place ds : Int))

/-- A numeral without a zero in front of other digits and without a signed zero. -/
def Canonical (cs : List Char) : Prop :=
  cs = ['0'] ∨ ∃ d ds, ('1' ≤ d ∧ d ≤ '9') ∧ (cs = d :: ds ∨ cs = '-' :: d :: ds)

variable {cs ds : List Char} {n : Int}

/-! ### Reading numerals -/

theorem isDigit_iff {c : Char} : isDigit c = true ↔ '0' ≤ c ∧ c ≤ '9' := by
  simp only [isDigit, Bool.and_eq_true, decide_eq_true_eq]

/-- Reading digits from the first on counts the powers of ten. -/
theorem natValue_eq_place (ds : List Char) : natValue ds = place ds := by
  rw [place, Nat.ofDigits_eq_foldr, List.foldr_map, List.foldr_reverse, natValue]
  congr 1
  funext m d
  rw [Nat.cast_id, Nat.add_comm]

theorem natValue?_eq_some_iff {m : Nat} :
    natValue? ds = some m ↔ ds ≠ [] ∧ (∀ d ∈ ds, '0' ≤ d ∧ d ≤ '9') ∧ m = place ds := by
  simp only [natValue?, Option.ite_none_right_eq_some, Bool.and_eq_true, Bool.not_eq_true',
    List.isEmpty_eq_false_iff, List.all_eq_true, isDigit_iff, Option.some.injEq,
    natValue_eq_place, and_assoc, eq_comm (a := m)]

/-- The digits after a minus sign are read as a natural number. -/
theorem intValue?_minus (ds : List Char) :
    intValue? ('-' :: ds) = (natValue? ds).map fun m : Nat => -(m : Int) := by
  rw [intValue?]
  cases natValue? ds <;> rfl

/-- Without a minus sign in front, all is read as a natural number. -/
theorem intValue?_of_ne (h : ∀ ds, cs ≠ '-' :: ds) :
    intValue? cs = (natValue? cs).map fun m : Nat => (m : Int) := by
  unfold intValue?
  split
  · next ds => exact absurd rfl (h ds)
  · cases natValue? cs <;> rfl

/-- **The reader of integers takes exactly the numerals**, and gives what they stand for. -/
theorem intValue?_eq_some_iff : intValue? cs = some n ↔ Denotes cs n := by
  constructor
  · intro h
    by_cases hminus : ∃ ds, cs = '-' :: ds
    · obtain ⟨ds, rfl⟩ := hminus
      rw [intValue?_minus] at h
      obtain ⟨m, hm, rfl⟩ := Option.map_eq_some_iff.mp h
      obtain ⟨hne, hds, rfl⟩ := natValue?_eq_some_iff.mp hm
      exact .negated hne hds
    · rw [intValue?_of_ne fun ds hds => hminus ⟨ds, hds⟩] at h
      obtain ⟨m, hm, rfl⟩ := Option.map_eq_some_iff.mp h
      obtain ⟨hne, hds, rfl⟩ := natValue?_eq_some_iff.mp hm
      exact .plain hne hds
  · intro h
    cases h with
    | plain hne hds =>
      have hvalue := natValue?_eq_some_iff.mpr ⟨hne, hds, rfl⟩
      rw [intValue?_of_isDigit fun d hd => isDigit_iff.mpr (hds d hd), hvalue]
      rfl
    | negated hne hds =>
      have hvalue := natValue?_eq_some_iff.mpr ⟨hne, hds, rfl⟩
      rw [intValue?_minus, hvalue]
      rfl

theorem intValue?_eq_none_iff : intValue? cs = none ↔ ¬∃ n, Denotes cs n := by
  simp only [← intValue?_eq_some_iff, Option.eq_none_iff_forall_ne_some, not_exists, ne_eq]

/-- A numeral stands for one integer. -/
theorem Denotes.unique {m : Int} (hm : Denotes cs m) (hn : Denotes cs n) : m = n := by
  have hread := intValue?_eq_some_iff.mpr hm
  rw [intValue?_eq_some_iff.mpr hn] at hread
  exact (Option.some.inj hread).symm

/-! ### Canonical numerals -/

/-- One more digit makes the number ten times as large and counts the ones. -/
theorem natValue_concat (ds : List Char) (c : Char) :
    natValue (ds ++ [c]) = 10 * natValue ds + digitValue c := by
  rw [natValue, natValue, List.foldl_append, List.foldl_cons, List.foldl_nil]

/-- A digit is written as the digit of its number. -/
theorem digitChar_digitValue {c : Char} (h : '0' ≤ c ∧ c ≤ '9') :
    digitValue c < 10 ∧ Nat.digitChar (digitValue c) = c := by
  have hlow : 48 ≤ c.toNat := h.1
  have hhigh : c.toNat ≤ 57 := h.2
  have hvalue : digitValue c = c.toNat - 48 := rfl
  have hlt : c.toNat - 48 < 10 := by omega
  rw [hvalue]
  refine ⟨hlt, Char.toNat_inj.mp ?_⟩
  rw [Nat.toNat_digitChar_of_lt_ten hlt]
  omega

/-- Digits of which the first is not zero are the written form of their number. -/
theorem ofNat_natValue {d : Char} (hd : '1' ≤ d ∧ d ≤ '9') : ∀ ds : List Char,
    (∀ c ∈ ds, '0' ≤ c ∧ c ≤ '9') →
      0 < natValue (d :: ds) ∧ ofNat (natValue (d :: ds)) = d :: ds := by
  intro ds
  induction ds using List.reverseRecOn with
  | nil =>
    intro _
    have hlow : 49 ≤ d.toNat := hd.1
    have hdigit : '0' ≤ d ∧ d ≤ '9' := ⟨Nat.le_trans (by decide : 48 ≤ 49) hlow, hd.2⟩
    obtain ⟨hlt, hchar⟩ := digitChar_digitValue hdigit
    have hone : natValue [d] = digitValue d := Nat.zero_add _
    have hpos : 0 < digitValue d := by
      have hvalue : digitValue d = d.toNat - 48 := rfl
      omega
    rw [hone, ofNat, Nat.toDigits_of_lt_base hlt, hchar]
    exact ⟨hpos, rfl⟩
  | append_singleton ds c ih =>
    intro hds
    rw [List.forall_mem_append, List.forall_mem_singleton] at hds
    obtain ⟨hpos, hwritten⟩ := ih hds.1
    obtain ⟨hlt, hchar⟩ := digitChar_digitValue hds.2
    have hconcat := natValue_concat (d :: ds) c
    rw [List.cons_append] at hconcat
    refine ⟨by omega, ?_⟩
    calc ofNat (natValue (d :: (ds ++ [c])))
        = ofNat (10 * natValue (d :: ds) + digitValue c) := by rw [hconcat]
      _ = ofNat (natValue (d :: ds)) ++ ofNat (digitValue c) :=
          (Nat.toDigits_append_toDigits (by decide) hpos hlt).symm
      _ = d :: (ds ++ [c]) := by
          rw [hwritten, ofNat, Nat.toDigits_of_lt_base hlt, hchar, List.cons_append]

/-- A number above zero is written without a zero in front. -/
theorem exists_ofNat_eq_cons (n : Nat) (hn : 0 < n) :
    ∃ d ds, ('1' ≤ d ∧ d ≤ '9') ∧ ofNat n = d :: ds := by
  induction n using Nat.strongRecOn with
  | ind n ih =>
    rw [ofNat, Nat.toDigits_eq_if (by decide)]
    by_cases hlt : n < 10
    · have hchar := Nat.toNat_digitChar_of_lt_ten hlt
      have hlow : 49 ≤ (Nat.digitChar n).toNat := by omega
      have hhigh : (Nat.digitChar n).toNat ≤ 57 := by omega
      rw [if_pos hlt]
      exact ⟨Nat.digitChar n, [], ⟨hlow, hhigh⟩, rfl⟩
    · obtain ⟨d, ds, hd, hfront⟩ := ih (n / 10) (by omega) (by omega)
      rw [if_neg hlt]
      refine ⟨d, ds ++ [Nat.digitChar (n % 10)], hd, ?_⟩
      rw [ofNat] at hfront
      rw [hfront, List.cons_append]

/-- The written form has nothing needless in it. -/
theorem canonical_ofInt (n : Int) : Canonical (ofInt n) := by
  rw [ofInt]
  by_cases hneg : n < 0
  · obtain ⟨d, ds, hd, hds⟩ := exists_ofNat_eq_cons n.natAbs (by omega)
    rw [if_pos hneg, hds]
    exact .inr ⟨d, ds, hd, .inr rfl⟩
  · rw [if_neg hneg]
    rcases Nat.eq_zero_or_pos n.natAbs with hzero | hpos
    · rw [hzero]
      exact .inl (Nat.toDigits_zero 10)
    · obtain ⟨d, ds, hd, hds⟩ := exists_ofNat_eq_cons n.natAbs hpos
      rw [hds]
      exact .inr ⟨d, ds, hd, .inl rfl⟩

theorem ofInt_natCast (m : Nat) : ofInt m = ofNat m := by
  rw [ofInt, if_neg (by omega), Int.natAbs_natCast]

theorem ofInt_neg_natCast {m : Nat} (hm : 0 < m) : ofInt (-(m : Int)) = '-' :: ofNat m := by
  rw [ofInt, if_pos (by omega), Int.natAbs_neg, Int.natAbs_natCast]

/-- **The canonical numeral of an integer is its written form**, and no other text is. -/
theorem canonical_iff_eq_ofInt : Denotes cs n ∧ Canonical cs ↔ cs = ofInt n := by
  constructor
  · rintro ⟨hdenotes, hcanonical⟩
    cases hdenotes with
    | plain hne hds =>
      rw [← natValue_eq_place, ofInt_natCast]
      rcases hcanonical with rfl | ⟨d, ds, hd, rfl | rfl⟩
      · decide
      · obtain ⟨-, htail⟩ := List.forall_mem_cons.mp hds
        exact (ofNat_natValue hd ds htail).2.symm
      · -- The sign is no digit.
        exact absurd (hds '-' List.mem_cons_self) (by decide)
    | @negated ds hne hds =>
      rcases hcanonical with hzero | ⟨d, ds', hd, hplain | hnegated⟩
      · exact absurd (List.cons.inj hzero).1 (by decide)
      · obtain rfl := (List.cons.inj hplain).1
        exact absurd hd (by decide)
      · obtain rfl := (List.cons.inj hnegated).2
        obtain ⟨-, htail⟩ := List.forall_mem_cons.mp hds
        obtain ⟨hpos, hwritten⟩ := ofNat_natValue hd ds' htail
        rw [← natValue_eq_place, ofInt_neg_natCast hpos, hwritten]
  · rintro rfl
    exact ⟨intValue?_eq_some_iff.mp (intValue?_ofInt n), canonical_ofInt n⟩

end SborSchema.Digits
