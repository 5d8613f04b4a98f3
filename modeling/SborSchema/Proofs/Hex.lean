/-
# Which texts are byte strings

A text is read as a byte string if it has an even number of bytes and each of
them is a hexadecimal digit. In lower case such a text is made of the sixteen
lower-case digits, and every even number of those is itself such a text, in
lower case already.

Key definitions: `Hex.Canonical`.
Key theorems: `Hex.decode_eq_error`, `Hex.exists_decode_iff`, `Hex.canonical_lower`,
`Hex.Canonical.exists_decode`, `Hex.Canonical.lower_eq`.
-/
import SborSchema.Hex
import SborSchema.Proofs.Outcome

namespace SborSchema.Hex

/-! ### Refused texts -/

/-- Digits in pairs are refused for the first byte that is not one. -/
theorem decodePairs_eq_error {fault : Fault} : ∀ {bytes : List UInt8} {position : Nat},
    bytes.length % 2 = 0 → decodePairs bytes position = .error fault →
    ∃ i b, bytes[i]? = some b ∧ digit? b = none ∧
      (∀ j < i, ∀ c, bytes[j]? = some c → digit? c ≠ none) ∧ fault = .badDigit b (position + i)
  | [], _, _, h => nomatch h
  | [_], _, hlen, _ => nomatch hlen
  | a :: b :: rest, position, hlen, h => by
    simp only [decodePairs] at h
    cases ha : digit? a with
    | none =>
      simp only [ha] at h
      exact ⟨0, a, rfl, ha, fun j hj => absurd hj (Nat.not_lt_zero j), (Except.error.inj h).symm⟩
    | some high =>
      cases hb : digit? b with
      | none =>
        simp only [ha, hb] at h
        refine ⟨1, b, rfl, hb, fun j hj c hc => ?_, (Except.error.inj h).symm⟩
        obtain rfl : j = 0 := by omega
        obtain rfl : a = c := by simpa using hc
        simp [ha]
      | some low =>
        simp only [ha, hb] at h
        obtain h | ⟨_, -, h⟩ := bind_eq_error.mp h
        · have heven : rest.length % 2 = 0 := by
            simp only [List.length_cons] at hlen
            omega
          obtain ⟨i, d, hd, hbad, hfirst, rfl⟩ := decodePairs_eq_error heven h
          refine ⟨i + 2, d, hd, hbad, fun j hj c hc => ?_, by rw [Nat.add_right_comm]; rfl⟩
          match j, hj, hc with
          | 0, _, hc =>
            obtain rfl : a = c := by simpa using hc
            simp [ha]
          | 1, _, hc =>
            obtain rfl : b = c := by simpa using hc
            simp [hb]
          | j + 2, hj, hc => exact hfirst j (by omega) c hc
        · cases h

/-- A byte string is refused for the number of its digits, or for the first byte of its
text that is not a digit. -/
theorem decode_eq_error {text : String} {fault : Fault} (h : decode text = .error fault) :
    ((utf8 text).length % 2 = 1 ∧ fault = .oddLength) ∨
    ((utf8 text).length % 2 = 0 ∧ ∃ i b, (utf8 text)[i]? = some b ∧ digit? b = none ∧
      (∀ j < i, ∀ c, (utf8 text)[j]? = some c → digit? c ≠ none) ∧ fault = .badDigit b i) := by
  simp only [decode] at h
  split at h
  · next hodd => exact .inl ⟨hodd, (Except.error.inj h).symm⟩
  · next hodd =>
    have heven : (utf8 text).length % 2 = 0 := by omega
    obtain ⟨i, b, hb, hbad, hfirst, hfault⟩ := decodePairs_eq_error heven h
    rw [Nat.zero_add] at hfault
    exact .inr ⟨heven, i, b, hb, hbad, hfirst, hfault⟩

/-! ### Accepted texts -/

theorem digit?_of_decodePairs : ∀ {bytes out : List UInt8} {position : Nat},
    decodePairs bytes position = .ok out → ∀ b ∈ bytes, digit? b ≠ none
  | [], _, _, _, _, hb => nomatch hb
  | [_], _, _, h, _, _ => nomatch h
  | a :: b :: rest, out, position, h, c, hc => by
    simp only [decodePairs] at h
    cases ha : digit? a with
    | none => simp [ha] at h
    | some high =>
      cases hb : digit? b with
      | none => simp [ha, hb] at h
      | some low =>
        simp only [ha, hb] at h
        obtain ⟨bytes, hrest, -⟩ := bind_eq_ok.mp h
        rcases List.mem_cons.mp hc with rfl | hc
        · simp [ha]
        rcases List.mem_cons.mp hc with rfl | hc
        · simp [hb]
        · exact digit?_of_decodePairs hrest c hc

/-- A text is a byte string if it has an even number of bytes, all of them digits. -/
theorem exists_decode_iff {text : String} : (∃ bytes, decode text = .ok bytes) ↔
    (utf8 text).length % 2 = 0 ∧ ∀ b ∈ utf8 text, digit? b ≠ none := by
  constructor
  · rintro ⟨bytes, h⟩
    simp only [decode] at h
    split at h
    · cases h
    · next hodd => exact ⟨by omega, digit?_of_decodePairs h⟩
  · rintro ⟨heven, hdigits⟩
    cases h : decode text with
    | ok bytes => exact ⟨bytes, rfl⟩
    | error fault =>
      obtain ⟨hodd, -⟩ | ⟨-, i, b, hb, hbad, -⟩ := decode_eq_error h
      · omega
      · exact absurd hbad (hdigits b (List.mem_of_getElem? hb))

/-! ### Digits in lower case -/

/-- Whether a character is a hexadecimal digit in lower case. -/
def isLowerDigit (c : Char) : Bool := ('0' ≤ c && c ≤ '9') || ('a' ≤ c && c ≤ 'f')

/-- An even number of hexadecimal digits in lower case. -/
def Canonical (hex : String) : Prop :=
  hex.length % 2 = 0 ∧ ∀ c ∈ hex.toList, isLowerDigit c = true

instance (hex : String) : Decidable (Canonical hex) :=
  decidable_of_iff ((hex.length % 2 == 0 && hex.toList.all isLowerDigit) = true)
    (by simp [Canonical])

/-- What the case of the ASCII characters has to do with digits, by looking at each. -/
theorem ascii_digits : ∀ n < 128,
    (digit? (UInt8.ofNat n) ≠ none → isLowerDigit (lowerChar (Char.ofNat n)) = true) ∧
    (isLowerDigit (Char.ofNat n) = true →
      digit? (UInt8.ofNat n) ≠ none ∧ lowerChar (Char.ofNat n) = Char.ofNat n) := by
  decide

theorem utf8EncodeChar_of_lt {c : Char} (h : c.toNat < 128) :
    String.utf8EncodeChar c = [UInt8.ofNat c.toNat] :=
  if_pos (Nat.le_of_lt_succ h)

theorem digit?_of_le {n : Nat} (hle : 192 ≤ n) (hlt : n < 256) : digit? (UInt8.ofNat n) = none := by
  have hall : ∀ m < 64, digit? (UInt8.ofNat (192 + m)) = none := by decide
  have hn := hall (n - 192) (by omega)
  rwa [Nat.add_sub_cancel' hle] at hn

/-- A character whose bytes are all digits is an ASCII character: the first byte of any
other character is at least 192. -/
theorem lt_of_utf8EncodeChar {c : Char} (h : ∀ b ∈ String.utf8EncodeChar c, digit? b ≠ none) :
    c.toNat < 128 := by
  refine Nat.lt_of_not_le fun hc => ?_
  have hv : ¬c.val.toNat ≤ 127 := Nat.not_le_of_lt hc
  simp only [String.utf8EncodeChar, if_neg hv] at h
  split at h
  · exact h _ List.mem_cons_self (digit?_of_le (by omega) (by omega))
  split at h
  · exact h _ List.mem_cons_self (digit?_of_le (by omega) (by omega))
  · exact h _ List.mem_cons_self (digit?_of_le (by omega) (by omega))

theorem lt_of_isLowerDigit {c : Char} (h : isLowerDigit c = true) : c.toNat < 128 := by
  simp only [isLowerDigit, Bool.or_eq_true, Bool.and_eq_true, decide_eq_true_eq, Char.le_def,
    UInt32.le_iff_toNat_le] at h
  have : c.toNat = c.val.toNat := rfl
  have : '9'.val.toNat = 57 := rfl
  have : 'f'.val.toNat = 102 := rfl
  omega

/-- A character whose bytes are all digits becomes a digit in lower case, and has one byte. -/
theorem digit_of_utf8EncodeChar {c : Char}
    (h : ∀ b ∈ String.utf8EncodeChar c, digit? b ≠ none) :
    isLowerDigit (lowerChar c) = true ∧ (String.utf8EncodeChar c).length = 1 := by
  have hc := lt_of_utf8EncodeChar h
  rw [utf8EncodeChar_of_lt hc] at h ⊢
  have hlower := (ascii_digits c.toNat hc).1 (h _ List.mem_cons_self)
  rw [Char.ofNat_toNat] at hlower
  exact ⟨hlower, rfl⟩

/-- A digit in lower case has one byte, which is a digit, and stays as it is. -/
theorem digit_of_isLowerDigit {c : Char} (h : isLowerDigit c = true) :
    (∀ b ∈ String.utf8EncodeChar c, digit? b ≠ none) ∧
      (String.utf8EncodeChar c).length = 1 ∧ lowerChar c = c := by
  have hc := lt_of_isLowerDigit h
  rw [utf8EncodeChar_of_lt hc]
  have hdigit := (ascii_digits c.toNat hc).2
  rw [Char.ofNat_toNat] at hdigit
  obtain ⟨hbyte, hlower⟩ := hdigit h
  exact ⟨fun b hb => List.mem_singleton.mp hb ▸ hbyte, rfl, hlower⟩

/-- Characters of one byte each make as many bytes. -/
theorem length_flatMap_utf8EncodeChar {cs : List Char}
    (h : ∀ c ∈ cs, (String.utf8EncodeChar c).length = 1) :
    (cs.flatMap String.utf8EncodeChar).length = cs.length := by
  induction cs with
  | nil => rfl
  | cons c cs ih =>
    obtain ⟨hc, hcs⟩ := List.forall_mem_cons.mp h
    rw [List.flatMap_cons, List.length_append, hc, ih hcs, List.length_cons, Nat.add_comm]

/-! ### Byte strings in lower case -/

/-- **A byte string comes back as lower-case digits, an even number of them.** -/
theorem canonical_lower {text : String} {bytes : List UInt8} (h : decode text = .ok bytes) :
    Canonical (lower text) := by
  obtain ⟨heven, hdigits⟩ := exists_decode_iff.mp ⟨bytes, h⟩
  have hchars : ∀ c ∈ text.toList, isLowerDigit (lowerChar c) = true ∧
      (String.utf8EncodeChar c).length = 1 := fun c hc =>
    digit_of_utf8EncodeChar fun b hb => hdigits b (List.mem_flatMap.mpr ⟨c, hc, hb⟩)
  rw [utf8, length_flatMap_utf8EncodeChar fun c hc => (hchars c hc).2] at heven
  constructor
  · rwa [lower, String.length_ofList, List.length_map]
  · intro c hc
    rw [lower, String.toList_ofList] at hc
    obtain ⟨d, hd, rfl⟩ := List.mem_map.mp hc
    exact (hchars d hd).1

/-- An even number of lower-case digits is a byte string. -/
theorem Canonical.exists_decode {hex : String} (h : Canonical hex) :
    ∃ bytes, decode hex = .ok bytes := by
  obtain ⟨heven, hdigits⟩ := h
  refine exists_decode_iff.mpr ⟨?_, fun b hb => ?_⟩
  · rwa [utf8, length_flatMap_utf8EncodeChar fun c hc =>
      (digit_of_isLowerDigit (hdigits c hc)).2.1]
  · obtain ⟨c, hc, hbc⟩ := List.mem_flatMap.mp hb
    exact (digit_of_isLowerDigit (hdigits c hc)).1 b hbc

/-- Lower-case digits stay as they are. -/
theorem Canonical.lower_eq {hex : String} (h : Canonical hex) : lower hex = hex := by
  have hmap : hex.toList.map lowerChar = hex.toList :=
    (List.map_congr_left fun c hc => (digit_of_isLowerDigit (h.2 c hc)).2.2).trans (List.map_id _)
  rw [lower, hmap, String.ofList_toList]

end SborSchema.Hex
