/-
# Byte strings have one form

A byte string node is accepted if its elements are bytes and its text denotes a
byte string, and its text in lower case comes back. This text denotes the same
byte string and is the same for all texts that do, so byte strings can be
compared by what comes back for them, and it comes back for itself.

Key theorems: `Schema.checkBytes_eq_ok_iff`, `Schema.bytes_parseGated_eq_ok_iff`,
`Hex.lower_eq_iff`, `Schema.bytes_have_one_form`.
-/
import SborSchema.Proofs.Hex.Denotation
import SborSchema.Schema.Scalar

namespace SborSchema

namespace Schema

variable {l : Labels} {kind : Kind} {hex out : String} {p : Path}

/-- The content of a byte string node is in order if it is bytes that a text denotes. -/
theorem checkBytes_eq_ok_iff : checkBytes (.leaf l (.bytes kind hex)) p = .ok () ↔
    kind = .integer .u8 ∧ ∃ bytes, Hex.Denotes hex.toList bytes := by
  simp only [checkBytes]
  by_cases hkind : kind = .integer .u8
  · rw [if_neg (not_not_intro hkind), and_iff_right hkind]
    constructor
    · intro h
      split at h
      · next bytes hbytes => exact ⟨bytes, Hex.decode_eq_ok_iff.mp hbytes⟩
      · cases h
    · rintro ⟨bytes, hbytes⟩
      rw [Hex.decode_eq_ok_iff.mpr hbytes]
  · rw [if_pos hkind]
    exact iff_of_false (fun h => by cases h) fun h => hkind h.1

/-- A byte string node passes the kind gate. -/
theorem bytes_gate (l : Labels) (kind : Kind) (hex : String) (p : Path) :
    bytes.gate (.leaf l (.bytes kind hex)) p = .ok () := by
  have hkind : bytes.kinds.contains (Tree.leaf l (.bytes kind hex)).kind = true := by
    rw [bytes, KindSet.contains_single]
    exact decide_eq_true rfl
  exact if_pos hkind

theorem bytes_validateGated_eq_ok_iff :
    bytes.validateGated (.leaf l (.bytes kind hex)) p = .ok () ↔
      kind = .integer .u8 ∧ ∃ bytes, Hex.Denotes hex.toList bytes := by
  have hvalidate : bytes.validate (.leaf l (.bytes kind hex)) p =
      checkBytes (.leaf l (.bytes kind hex)) p := rfl
  rw [validateGated, bytes_gate, ok_bind, hvalidate, checkBytes_eq_ok_iff]

/-- What is accepted comes back in lower case. -/
theorem bytes_parseGated_eq_ok_iff :
    bytes.parseGated (.leaf l (.bytes kind hex)) p = .ok out ↔
      (kind = .integer .u8 ∧ ∃ bytes, Hex.Denotes hex.toList bytes) ∧ out = Hex.lower hex := by
  have hparse : bytes.parse (.leaf l (.bytes kind hex)) p =
      checkBytes (.leaf l (.bytes kind hex)) p >>= fun _ => .ok (Hex.lower hex) := rfl
  rw [parseGated, bytes_gate, ok_bind, hparse, bind_eq_ok, ← checkBytes_eq_ok_iff (l := l) (p := p)]
  constructor
  · rintro ⟨⟨⟩, hcheck, hout⟩
    exact ⟨hcheck, (Except.ok.inj hout).symm⟩
  · rintro ⟨hcheck, rfl⟩
    exact ⟨(), hcheck, rfl⟩

/-- The parse accepts what the check accepts. -/
theorem exists_bytes_parseGated_iff :
    (∃ out, bytes.parseGated (.leaf l (.bytes kind hex)) p = .ok out) ↔
      kind = .integer .u8 ∧ ∃ bytes, Hex.Denotes hex.toList bytes := by
  simp only [bytes_parseGated_eq_ok_iff, exists_and_left, exists_eq, and_true]

end Schema

namespace Hex

variable {text text' : String} {bytes bytes' : List UInt8}

theorem toList_lower (text : String) : (lower text).toList = text.toList.map lowerChar :=
  String.toList_ofList

/-- In lower case a text denotes the same byte string. -/
theorem denotes_lower (h : Denotes text.toList bytes) : Denotes (lower text).toList bytes := by
  rw [toList_lower]
  exact h.map_lowerChar

/-- Texts that denote the same byte string are the same in lower case. -/
theorem lower_eq_of_denotes (h : Denotes text.toList bytes) (h' : Denotes text'.toList bytes) :
    lower text = lower text' := by
  rw [lower, lower, h.map_lowerChar_eq h']

/-- **Texts that denote byte strings are the same in lower case if and only if they denote the
same one.** -/
theorem lower_eq_iff (h : Denotes text.toList bytes) (h' : Denotes text'.toList bytes') :
    lower text = lower text' ↔ ∃ bs, Denotes text.toList bs ∧ Denotes text'.toList bs := by
  constructor
  · intro heq
    have hlower := denotes_lower h
    rw [heq] at hlower
    obtain rfl := hlower.unique (denotes_lower h')
    exact ⟨bytes, h, h'⟩
  · rintro ⟨bs, hbs, hbs'⟩
    exact lower_eq_of_denotes hbs hbs'

end Hex

/-- **Byte strings have one form.** A byte string node is accepted, by the check as by the parse,
if and only if its elements are bytes and its text is an even number of hexadecimal digits of
either case. What comes back denotes the byte string that the text denotes, and comes back for
itself. For two accepted nodes the same comes back if and only if their texts denote the same byte
string. -/
theorem Schema.bytes_have_one_form :
    let outcome (l : Labels) (kind : Kind) (hex : String) (p : Path) :=
      Schema.bytes.parseGated (.leaf l (.bytes kind hex)) p
    (∀ l kind hex p,
      ((∃ out, outcome l kind hex p = .ok out) ↔
        kind = .integer .u8 ∧ hex.length % 2 = 0 ∧ ∀ c ∈ hex.toList, Hex.IsDigit c) ∧
      (Schema.bytes.validateGated (.leaf l (.bytes kind hex)) p = .ok () ↔
        ∃ out, outcome l kind hex p = .ok out)) ∧
    (∀ l kind hex p out, outcome l kind hex p = .ok out →
      (∃ bytes, (∀ bs, Hex.Denotes hex.toList bs ↔ bs = bytes) ∧
        ∀ bs, Hex.Denotes out.toList bs ↔ bs = bytes) ∧
      ∀ l' p', outcome l' (.integer .u8) out p' = .ok out) ∧
    ∀ l kind hex p out l' kind' hex' p' out',
      outcome l kind hex p = .ok out → outcome l' kind' hex' p' = .ok out' →
      (out = out' ↔
        ∃ bytes, Hex.Denotes hex.toList bytes ∧ Hex.Denotes hex'.toList bytes) := by
  intro outcome
  refine ⟨fun l kind hex p => ⟨?accepted, ?checked⟩, ?form, ?same⟩
  case accepted =>
    rw [Schema.exists_bytes_parseGated_iff, Hex.exists_denotes_iff, String.length_toList]
  case checked =>
    rw [Schema.bytes_validateGated_eq_ok_iff, Schema.exists_bytes_parseGated_iff]
  case form =>
    intro l kind hex p out h
    obtain ⟨⟨-, bytes, hbytes⟩, rfl⟩ := Schema.bytes_parseGated_eq_ok_iff.mp h
    have hlower := Hex.denotes_lower hbytes
    refine ⟨⟨bytes, fun bs => hbytes.denotes_iff, fun bs => hlower.denotes_iff⟩, fun l' p' => ?_⟩
    have hsame := Hex.lower_eq_of_denotes hbytes hlower
    exact Schema.bytes_parseGated_eq_ok_iff.mpr ⟨⟨rfl, bytes, hlower⟩, hsame⟩
  case same =>
    intro l kind hex p out l' kind' hex' p' out' h h'
    obtain ⟨⟨-, bytes, hbytes⟩, rfl⟩ := Schema.bytes_parseGated_eq_ok_iff.mp h
    obtain ⟨⟨-, bytes', hbytes'⟩, rfl⟩ := Schema.bytes_parseGated_eq_ok_iff.mp h'
    exact Hex.lower_eq_iff hbytes hbytes'

/-- `DEADbeef` and `deadBEEF` come back as `deadbeef`, which is its own form. -/
theorem Schema.bytes_have_one_form_deadbeef :
    let outcome (hex : String) := Schema.bytes.parseGated (.leaf {} (.bytes (.integer .u8) hex)) .root
    outcome "DEADbeef" = .ok "deadbeef" ∧ outcome "deadBEEF" = .ok "deadbeef" ∧
      outcome "deadbeef" = .ok "deadbeef" ∧
      ∃ bytes, Hex.Denotes "DEADbeef".toList bytes ∧ Hex.Denotes "deadBEEF".toList bytes := by
  intro outcome
  have hupper : outcome "DEADbeef" = .ok "deadbeef" := by rfl
  have hlower : outcome "deadBEEF" = .ok "deadbeef" := by rfl
  obtain ⟨-, hform, hsame⟩ := Schema.bytes_have_one_form
  obtain ⟨-, hagain⟩ := hform {} (.integer .u8) "DEADbeef" .root "deadbeef" hupper
  have hbytes := (hsame {} (.integer .u8) "DEADbeef" .root "deadbeef" {} (.integer .u8) "deadBEEF"
    .root "deadbeef" hupper hlower).mp rfl
  exact ⟨hupper, hlower, hagain {} .root, hbytes⟩

end SborSchema
