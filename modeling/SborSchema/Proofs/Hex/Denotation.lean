/-
# What hexadecimal texts denote

A byte string is denoted by two digits a byte, the more significant one first,
and a digit counts as its place among the sixteen, in either case. The reader of
byte strings takes exactly the texts that denote one: the bytes of a character
that is not ASCII are no digits. In lower case a text denotes the same byte
string, and all texts that denote a byte string are the same in lower case.

Key definitions: `Hex.IsDigit`, `Hex.DigitOf`, `Hex.Denotes`.
Key theorems: `Hex.exists_denotes_iff`, `Hex.decode_eq_ok_iff`, `Hex.Denotes.unique`,
`Hex.Denotes.map_lowerChar`, `Hex.Denotes.map_lowerChar_eq`.
-/
import SborSchema.Proofs.Hex

namespace SborSchema.Hex

/-- A hexadecimal digit of either case. -/
def IsDigit (c : Char) : Prop :=
  ('0' ≤ c ∧ c ≤ '9') ∨ ('a' ≤ c ∧ c ≤ 'f') ∨ ('A' ≤ c ∧ c ≤ 'F')

instance (c : Char) : Decidable (IsDigit c) :=
  inferInstanceAs (Decidable (('0' ≤ c ∧ c ≤ '9') ∨ ('a' ≤ c ∧ c ≤ 'f') ∨ ('A' ≤ c ∧ c ≤ 'F')))

/-- The digits in lower case, in the order of their numbers. -/
def lowerDigits : List Char :=
  ['0', '1', '2', '3', '4', '5', '6', '7', '8', '9', 'a', 'b', 'c', 'd', 'e', 'f']

/-- The digits in upper case, in the order of their numbers. -/
def upperDigits : List Char :=
  ['0', '1', '2', '3', '4', '5', '6', '7', '8', '9', 'A', 'B', 'C', 'D', 'E', 'F']

/-- The digits of both cases with their numbers. -/
def numberedDigits : List (Char × Nat) := lowerDigits.zipIdx ++ upperDigits.zipIdx

/-- The character is the digit of the number, in one of the cases. -/
def DigitOf (c : Char) (n : Nat) : Prop := (c, n) ∈ numberedDigits

/-- The characters denote the bytes, two digits each. -/
inductive Denotes : List Char → List UInt8 → Prop
  | nil : Denotes [] []
  | cons {a b : Char} {high low : Nat} {cs : List Char} {bytes : List UInt8}
      (ha : DigitOf a high) (hb : DigitOf b low) (hcs : Denotes cs bytes) :
      Denotes (a :: b :: cs) (UInt8.ofNat (16 * high + low) :: bytes)

variable {c : Char} {n : Nat} {cs cs' : List Char} {bytes bytes' : List UInt8}

/-! ### Single digits -/

/-- What is true of the digits of both cases, by looking at each. -/
theorem digits_table : ∀ d ∈ numberedDigits,
    d.2 < 16 ∧ d.1.toNat < 128 ∧ IsDigit d.1 ∧
      digit? (UInt8.ofNat d.1.toNat) = some (UInt8.ofNat d.2) ∧
      lowerDigits[d.2]? = some (lowerChar d.1) := by
  decide

/-- What is read as a digit among the ASCII characters, by looking at each. -/
theorem ascii_table : ∀ n < 128,
    (IsDigit (Char.ofNat n) → digit? (UInt8.ofNat n) ≠ none) ∧
    (digit? (UInt8.ofNat n)).all (fun d => (Char.ofNat n, d.toNat) ∈ numberedDigits) = true := by
  decide

namespace DigitOf

theorem lt (h : DigitOf c n) : n < 16 := (digits_table _ h).1

theorem isDigit (h : DigitOf c n) : IsDigit c := (digits_table _ h).2.2.1

theorem digit?_eq (h : DigitOf c n) : digit? (UInt8.ofNat c.toNat) = some (UInt8.ofNat n) :=
  (digits_table _ h).2.2.2.1

theorem getElem?_lowerDigits (h : DigitOf c n) : lowerDigits[n]? = some (lowerChar c) :=
  (digits_table _ h).2.2.2.2

/-- In lower case a digit is a digit of the same number. -/
theorem lowerChar (h : DigitOf c n) : DigitOf (lowerChar c) n :=
  List.mem_append_left _ (List.mem_zipIdx_iff_getElem?.mpr h.getElem?_lowerDigits)

end DigitOf

theorem digitOf_of_digit? {d : UInt8} (hc : c.toNat < 128)
    (h : digit? (UInt8.ofNat c.toNat) = some d) : DigitOf c d.toNat := by
  have hread := (Option.all_eq_true _ _).mp (ascii_table c.toNat hc).2 d h
  rw [Char.ofNat_toNat] at hread
  exact (decide_eq_true_eq (p := (c, d.toNat) ∈ numberedDigits)).mp hread

theorem IsDigit.lt (h : IsDigit c) : c.toNat < 128 := by
  rcases h with ⟨-, h⟩ | ⟨-, h⟩ | ⟨-, h⟩
  · exact Nat.lt_of_le_of_lt (show c.toNat ≤ '9'.toNat from h) (by decide)
  · exact Nat.lt_of_le_of_lt (show c.toNat ≤ 'f'.toNat from h) (by decide)
  · exact Nat.lt_of_le_of_lt (show c.toNat ≤ 'F'.toNat from h) (by decide)

/-- The digits are the characters that have a number. -/
theorem exists_digitOf_iff : (∃ n, DigitOf c n) ↔ IsDigit c := by
  constructor
  · rintro ⟨n, hn⟩
    exact hn.isDigit
  · intro hc
    have hread := (ascii_table c.toNat hc.lt).1
    rw [Char.ofNat_toNat] at hread
    obtain ⟨d, hd⟩ := Option.ne_none_iff_exists'.mp (hread hc)
    exact ⟨d.toNat, digitOf_of_digit? hc.lt hd⟩

/-! ### Denoted byte strings -/

/-- **The texts that denote a byte string are even numbers of digits.** -/
theorem exists_denotes_iff : ∀ {cs : List Char},
    (∃ bytes, Denotes cs bytes) ↔ cs.length % 2 = 0 ∧ ∀ c ∈ cs, IsDigit c
  | [] => iff_of_true ⟨[], .nil⟩ ⟨rfl, by simp⟩
  | [_] => iff_of_false (fun ⟨_, h⟩ => by cases h) fun h => absurd h.1 (by simp)
  | a :: b :: cs => by
    have ih : (∃ bytes, Denotes cs bytes) ↔ cs.length % 2 = 0 ∧ ∀ c ∈ cs, IsDigit c :=
      exists_denotes_iff
    have hlength : (a :: b :: cs).length % 2 = cs.length % 2 := by
      rw [List.length_cons, List.length_cons]
      omega
    rw [hlength, List.forall_mem_cons, List.forall_mem_cons]
    constructor
    · rintro ⟨_, h⟩
      cases h with
      | cons ha hb hcs =>
        obtain ⟨heven, hdigits⟩ := ih.mp ⟨_, hcs⟩
        exact ⟨heven, ha.isDigit, hb.isDigit, hdigits⟩
    · rintro ⟨heven, ha, hb, hdigits⟩
      obtain ⟨high, hhigh⟩ := exists_digitOf_iff.mpr ha
      obtain ⟨low, hlow⟩ := exists_digitOf_iff.mpr hb
      obtain ⟨bytes, hbytes⟩ := ih.mpr ⟨heven, hdigits⟩
      exact ⟨_, .cons hhigh hlow hbytes⟩

/-- In lower case the characters denote the same bytes. -/
theorem Denotes.map_lowerChar (h : Denotes cs bytes) : Denotes (cs.map Hex.lowerChar) bytes := by
  induction h with
  | nil => exact .nil
  | cons ha hb _ ih => exact .cons ha.lowerChar hb.lowerChar ih

/-- The two digits of a byte are known from it. -/
theorem digits_eq_of_byte_eq {high low high' low' : Nat} (hhigh : high < 16) (hlow : low < 16)
    (hhigh' : high' < 16) (hlow' : low' < 16)
    (h : UInt8.ofNat (16 * high + low) = UInt8.ofNat (16 * high' + low')) :
    high = high' ∧ low = low' := by
  have hnat := congrArg UInt8.toNat h
  rw [UInt8.toNat_ofNat_of_lt' (show 16 * high + low < 256 by omega),
    UInt8.toNat_ofNat_of_lt' (show 16 * high' + low' < 256 by omega)] at hnat
  omega

/-- **Texts that denote the same bytes are the same in lower case.** -/
theorem Denotes.map_lowerChar_eq (h : Denotes cs bytes) (h' : Denotes cs' bytes) :
    cs.map Hex.lowerChar = cs'.map Hex.lowerChar := by
  induction h generalizing cs' with
  | nil =>
    cases h'
    rfl
  | cons ha hb _ ih =>
    generalize hbyte : UInt8.ofNat _ = byte at h'
    cases h' with
    | cons ha' hb' hcs' =>
      obtain ⟨rfl, rfl⟩ := digits_eq_of_byte_eq ha.lt hb.lt ha'.lt hb'.lt hbyte
      have hhigh := Option.some.inj (ha.getElem?_lowerDigits.symm.trans ha'.getElem?_lowerDigits)
      have hlow := Option.some.inj (hb.getElem?_lowerDigits.symm.trans hb'.getElem?_lowerDigits)
      simp only [List.map_cons, hhigh, hlow, ih hcs']

/-! ### Reading -/

/-- The byte of an ASCII character. -/
def asciiByte (c : Char) : UInt8 := UInt8.ofNat c.toNat

theorem flatMap_utf8EncodeChar (hcs : ∀ c ∈ cs, c.toNat < 128) :
    cs.flatMap String.utf8EncodeChar = cs.map asciiByte := by
  induction cs with
  | nil => rfl
  | cons c cs ih =>
    obtain ⟨hc, hcs⟩ := List.forall_mem_cons.mp hcs
    rw [List.flatMap_cons, utf8EncodeChar_of_lt hc, ih hcs]
    rfl

theorem ofNat_digits (high low : Nat) :
    UInt8.ofNat (16 * high + low) = 16 * UInt8.ofNat high + UInt8.ofNat low := by
  rw [UInt8.ofNat_add, UInt8.ofNat_mul]
  rfl

/-- What the characters denote is read from their bytes. -/
theorem decodePairs_of_denotes (h : Denotes cs bytes) :
    ∀ position, decodePairs (cs.map asciiByte) position = .ok bytes := by
  induction h with
  | nil => exact fun _ => rfl
  | cons ha hb _ ih =>
    intro position
    simp only [List.map_cons, asciiByte, decodePairs, ha.digit?_eq, hb.digit?_eq]
    rw [ofNat_digits]
    exact bind_eq_ok.mpr ⟨_, ih (position + 2), rfl⟩

/-- What is read from the bytes of ASCII characters is what the characters denote. -/
theorem denotes_of_decodePairs : ∀ {cs : List Char} {bytes : List UInt8} {position : Nat},
    (∀ c ∈ cs, c.toNat < 128) → decodePairs (cs.map asciiByte) position = .ok bytes →
    Denotes cs bytes
  | [], _, _, _, h => Except.ok.inj h ▸ .nil
  | [_], _, _, _, h => by cases h
  | a :: b :: cs, bytes, position, hcs, h => by
    obtain ⟨ha, hb, hcs⟩ : a.toNat < 128 ∧ b.toNat < 128 ∧ ∀ c ∈ cs, c.toNat < 128 := by
      simpa only [List.forall_mem_cons] using hcs
    simp only [List.map_cons, decodePairs] at h
    cases hhigh : digit? (asciiByte a) with
    | none => simp [hhigh] at h
    | some high =>
      cases hlow : digit? (asciiByte b) with
      | none => simp [hhigh, hlow] at h
      | some low =>
        simp only [hhigh, hlow] at h
        obtain ⟨rest, hrest, hbytes⟩ := bind_eq_ok.mp h
        obtain rfl := Except.ok.inj hbytes
        have hbyte : 16 * high + low = UInt8.ofNat (16 * high.toNat + low.toNat) := by
          rw [ofNat_digits, UInt8.ofNat_toNat, UInt8.ofNat_toNat]
        rw [hbyte]
        exact .cons (digitOf_of_digit? ha hhigh) (digitOf_of_digit? hb hlow)
          (denotes_of_decodePairs hcs hrest)

/-- **A text is read as the byte string that it denotes**, and as nothing else. -/
theorem decode_eq_ok_iff {text : String} :
    decode text = .ok bytes ↔ Denotes text.toList bytes := by
  constructor
  · intro h
    obtain ⟨-, hdigits⟩ := exists_decode_iff.mp ⟨bytes, h⟩
    have hascii : ∀ c ∈ text.toList, c.toNat < 128 := fun c hc =>
      lt_of_utf8EncodeChar fun b hb => hdigits b (List.mem_flatMap.mpr ⟨c, hc, hb⟩)
    simp only [decode, utf8, flatMap_utf8EncodeChar hascii] at h
    split at h
    · cases h
    · exact denotes_of_decodePairs hascii h
  · intro h
    obtain ⟨heven, hdigits⟩ := exists_denotes_iff.mp ⟨bytes, h⟩
    have hascii : ∀ c ∈ text.toList, c.toNat < 128 := fun c hc => (hdigits c hc).lt
    have hnot : ¬(text.toList.map asciiByte).length % 2 = 1 := by
      rw [List.length_map]
      omega
    simp only [decode, utf8, flatMap_utf8EncodeChar hascii, if_neg hnot]
    exact decodePairs_of_denotes h 0

/-- A text denotes one byte string. -/
theorem Denotes.unique (h : Denotes cs bytes) (h' : Denotes cs bytes') : bytes = bytes' := by
  have hread := decodePairs_of_denotes h 0
  rw [decodePairs_of_denotes h' 0] at hread
  exact (Except.ok.inj hread).symm

theorem Denotes.denotes_iff (h : Denotes cs bytes) : Denotes cs bytes' ↔ bytes' = bytes :=
  ⟨fun h' => h'.unique h, fun hbytes => hbytes ▸ h⟩

end SborSchema.Hex
