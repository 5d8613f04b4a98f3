/-
# What a leaf makes of its content

Most leaves hand on their text. An integer is refused when its text is no
decimal number or its number has no place in its kind, and an instant also when
it lies outside the calendar. Every integer and every instant is read from its
own written form.

Key theorems: `Integer.read_eq_error`, `Integer.read_text`, `Schema.readInstant_eq_error`,
`Schema.readInstant_text`, `Schema.parse_leaf_eq_error`.
-/
import SborSchema.Proofs.Digits
import SborSchema.Proofs.Outcome
import SborSchema.Schema.Scalar

namespace SborSchema

/-! ### Integers -/

theorem IntegerKind.ofInt?_eq_none {k : IntegerKind} {n : Int} :
    k.ofInt? n = none ↔ ¬(k.min ≤ n ∧ n ≤ k.max) := by
  simp [ofInt?]

theorem IntegerKind.ofInt?_eq_some {k : IntegerKind} {n : Int} {x : Integer}
    (h : k.ofInt? n = some x) : x.kind = k ∧ x.value = n := by
  simp only [ofInt?] at h
  split at h
  · obtain rfl := Option.some.inj h
    exact ⟨rfl, rfl⟩
  · cases h

theorem IntegerKind.ofInt?_value (x : Integer) : x.kind.ofInt? x.value = some x :=
  dif_pos x.inRange

namespace Integer

/-- A numeral is read as its number is narrowed, and no other text is read. -/
theorem read_eq (kind : IntegerKind) (text : String) : read kind text =
    match Digits.intValue? text.toList with
    | none => .error (.notInteger kind text)
    | some n => ofValue kind text n := by
  rw [read, Digits.intValue?_eq_bigValue?]
  cases Digits.isNumeral text.toList <;> rfl

/-- An integer is refused for its text or for its number. -/
theorem read_eq_error {kind : IntegerKind} {text : String} {c : Cause}
    (h : read kind text = .error c) :
    (Digits.intValue? text.toList = none ∧ c = .notInteger kind text) ∨
    ∃ n, Digits.intValue? text.toList = some n ∧ ¬(kind.min ≤ n ∧ n ≤ kind.max) ∧
      ((kind.signed = false ∧ n < 0 ∧ c = .negativeUnsigned kind text) ∨
        ((kind.signed = true ∨ 0 ≤ n) ∧ c = .outsideRange kind text)) := by
  simp only [read_eq, ofValue] at h
  split at h
  · next hnone => exact .inl ⟨hnone, (Except.error.inj h).symm⟩
  · next n hn =>
    split at h
    · cases h
    · next hout =>
      refine .inr ⟨n, hn, IntegerKind.ofInt?_eq_none.mp hout, ?_⟩
      split at h
      · next hneg =>
        simp only [Bool.and_eq_true, Bool.not_eq_eq_eq_not, Bool.not_true,
          decide_eq_true_eq] at hneg
        exact .inl ⟨hneg.1, hneg.2, (Except.error.inj h).symm⟩
      · next hneg =>
        simp only [Bool.and_eq_true, Bool.not_eq_eq_eq_not, Bool.not_true, decide_eq_true_eq,
          Classical.not_and_iff_not_or_not, Bool.not_eq_false, Int.not_lt] at hneg
        exact .inr ⟨hneg, (Except.error.inj h).symm⟩

theorem read_eq_ok {kind : IntegerKind} {text : String} {x : Integer}
    (h : read kind text = .ok x) : Digits.intValue? text.toList = some x.value ∧ x.kind = kind := by
  simp only [read_eq, ofValue] at h
  split at h
  · cases h
  · next n hn =>
    split at h
    · next y hy =>
      obtain rfl := Except.ok.inj h
      obtain ⟨hkind, hvalue⟩ := IntegerKind.ofInt?_eq_some hy
      exact ⟨hvalue ▸ hn, hkind⟩
    · split at h <;> cases h

/-- **An integer is read from its own text.** -/
theorem read_text (x : Integer) : read x.kind x.text = .ok x := by
  have hvalue : Digits.intValue? x.text.toList = some x.value := by
    rw [text, Digits.text, String.toList_ofList, Digits.intValue?_ofInt]
  simp only [read_eq, hvalue, ofValue, IntegerKind.ofInt?_value]

end Integer

/-! ### Instants -/

/-- The integer of 64 bits that an instant is held as. -/
def Instant.toInteger (t : Instant) : Integer where
  kind := .i64
  value := t.seconds
  inRange := by
    have hmin : IntegerKind.i64.min = -9223372036854775808 := by decide
    have hmax : IntegerKind.i64.max = 9223372036854775807 := by decide
    have := t.inCalendar
    omega

namespace Schema

/-- An instant is refused as an integer, or for lying outside the calendar. -/
theorem readInstant_eq_error {text : String} {c : Cause} (h : readInstant text = .error c) :
    Integer.read .i64 text = .error c ∨
      ∃ x, Integer.read .i64 text = .ok x ∧ Instant.ofSeconds? x.value = none ∧
        c = .outsideCalendar x.value := by
  obtain h | ⟨x, hx, h⟩ := bind_eq_error.mp h
  · exact .inl h
  · split at h
    · cases h
    · next hout => exact .inr ⟨x, hx, hout, (Except.error.inj h).symm⟩

/-- An instant is read from the text of its seconds. -/
theorem readInstant_text (t : Instant) : readInstant t.toInteger.text = .ok t := by
  have hread : Integer.read .i64 t.toInteger.text = .ok t.toInteger := t.toInteger.read_text
  have hseconds : Instant.ofSeconds? t.toInteger.value = some t := dif_pos t.inCalendar
  simp only [readInstant, hread, ok_bind, hseconds]

/-! ### Readers of content -/

variable {α : Type} {accepted : KindSet} {read : Leaf → Option (Except Cause α)} {labels : Labels}
  {content : Leaf} {p : Path}

/-- Content that is read fails for the cause that it is read to. -/
theorem parse_leaf_eq_error {s : Schema α} {e : ParseError} {x : Except Cause α}
    (hparse : s.parse = readLeaf accepted read) (hread : read content = some x)
    (h : s.parse (.leaf labels content) p = .error e) : ∃ c, x = .error c ∧ e = ⟨c, p⟩ := by
  simp only [hparse, readLeaf, hread] at h
  cases x with
  | ok a => cases h
  | error c => exact ⟨c, rfl, (Except.error.inj h).symm⟩

end Schema
end SborSchema
