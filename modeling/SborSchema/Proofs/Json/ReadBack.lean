/-
# Written values are read back

The reader takes the compact form of a value for the value again if it nests no
deeper than the reader goes, and refuses it otherwise, whatever stands behind
it. The bound on the number of parts of an array or object never stands in the
way: it is the number of characters of the text, and each part takes one.

Key theorems: `Json.readValue_write`, `Json.ofTextWithin?_compact`.
-/
import SborSchema.Proofs.Json.Nesting

namespace SborSchema.Json

variable {width limit : Nat}

/-! ### The first character -/

theorem skipBlank_cons {c : Char} (hc : isBlank c = false) (rest : List Char) :
    skipBlank (c :: rest) = c :: rest :=
  List.dropWhile_cons_of_neg (by rw [hc]; exact Bool.false_ne_true)

/-- A written value starts with a character that is no blank and closes no array. -/
theorem exists_write_eq_cons {j : Json} (hj : j.NumberFree) (rest : List Char) :
    ∃ c cs, j.write rest = c :: cs ∧ isBlank c = false ∧ c ≠ ']' := by
  cases hj with
  | null => exact ⟨'n', _, rfl, by decide, by decide⟩
  | bool b => cases b with
    | true => exact ⟨'t', _, rfl, by decide, by decide⟩
    | false => exact ⟨'f', _, rfl, by decide, by decide⟩
  | string s => exact ⟨'"', _, rfl, by decide, by decide⟩
  | array hitems => exact ⟨'[', _, by rw [write], by decide, by decide⟩
  | object hmembers => exact ⟨'\x7b', _, by rw [write], by decide, by decide⟩

/-- Written items start as the first of them does. -/
theorem exists_writeItems_eq_cons {item : Json} (hitem : item.NumberFree) (items : List Json)
    (rest : List Char) :
    ∃ c cs, writeItems (item :: items) rest = c :: cs ∧ isBlank c = false ∧ c ≠ ']' := by
  cases items with
  | nil =>
    rw [writeItems]
    exact exists_write_eq_cons hitem rest
  | cons next items =>
    have hwrite : writeItems (item :: next :: items) rest =
        item.write (',' :: writeItems (next :: items) rest) := rfl
    rw [hwrite]
    exact exists_write_eq_cons hitem _

/-- Written members start with the quote in front of the first name. -/
theorem exists_writeMembers_eq_cons (member : String × Json) (members : List (String × Json))
    (rest : List Char) : ∃ cs, writeMembers (member :: members) rest = '"' :: cs := by
  cases members with
  | nil => exact ⟨_, rfl⟩
  | cons next members => exact ⟨_, rfl⟩

/-! ### What the reader does at a character -/

/-- A value that starts with neither a bracket nor a brace is read as a scalar. -/
theorem readValue_scalar {c : Char} (hblank : isBlank c = false) (hbracket : c ≠ '[')
    (hbrace : c ≠ '\x7b') (rest : List Char) :
    readValue width limit (c :: rest) = readScalar (c :: rest) := by
  cases limit with
  | zero => rw [readValue, skipBlank_cons hblank]
  | succ limit =>
    rw [readValue, skipBlank_cons hblank]
    split
    · next h => exact absurd (List.cons.inj h).1 hbracket
    · next h => exact absurd (List.cons.inj h).1 hbrace
    · rfl

/-- Where nothing may nest, no array and no object is read. -/
theorem readValue_zero {c : Char} (hc : c = '[' ∨ c = '\x7b') (rest : List Char) :
    readValue width 0 (c :: rest) = none := by
  rcases hc with rfl | rfl <;> rfl

theorem readValue_array {c : Char} (hblank : isBlank c = false) (hclose : c ≠ ']')
    (rest : List Char) :
    readValue width (limit + 1) ('[' :: c :: rest) =
      (readItems (fun _ cs => readValue width limit cs) width 0 (c :: rest)).map fun r =>
        (.array r.1, r.2) := by
  rw [readValue, skipBlank_cons (by decide)]
  simp only [skipBlank_cons hblank]
  split
  · next h => exact absurd (List.cons.inj h).1 hclose
  · rfl

theorem readValue_object (rest : List Char) :
    readValue width (limit + 1) ('\x7b' :: '"' :: rest) =
      (readMembers readText (fun _ cs => readValue width limit cs) width ('"' :: rest)).map
        fun r => (.object r.1, r.2) := by
  rw [readValue, skipBlank_cons (by decide)]
  simp only [skipBlank_cons (show isBlank '"' = false by decide)]
  rfl

section Parts

variable {α ν : Type} (item : Nat → List Char → Option (α × List Char)) {count i : Nat}
  (name : List Char → Option (ν × List Char)) (value : ν → List Char → Option (α × List Char))
  {cs cs' tail : List Char} {x : α} {n : ν}

/-- After the last item stands the closing bracket. -/
theorem readItems_last (h : item i cs = some (x, ']' :: tail)) :
    readItems item (count + 1) i cs = some ([x], tail) := by
  rw [readItems, h]
  rfl

/-- After any other item stands a comma. -/
theorem readItems_next (h : item i cs = some (x, ',' :: tail)) :
    readItems item (count + 1) i cs =
      (readItems item count (i + 1) tail).map fun r => (x :: r.1, r.2) := by
  rw [readItems, h]
  cases hrest : readItems item count (i + 1) tail <;>
    simp [skipBlank_cons (show isBlank ',' = false by decide), hrest]

theorem readItems_none (h : item i cs = none) : readItems item (count + 1) i cs = none := by
  rw [readItems, h]
  rfl

/-- After the last member stands the closing brace. -/
theorem readMembers_last (hname : name cs = some (n, ':' :: cs'))
    (h : value n cs' = some (x, '\x7d' :: tail)) :
    readMembers name value (count + 1) ('"' :: cs) = some ([(n, x)], tail) := by
  rw [readMembers, skipBlank_cons (by decide)]
  simp only [hname, Option.bind_eq_bind, Option.bind_some,
    skipBlank_cons (show isBlank ':' = false by decide), h]
  rfl

/-- After any other member stands a comma. -/
theorem readMembers_next (hname : name cs = some (n, ':' :: cs'))
    (h : value n cs' = some (x, ',' :: tail)) :
    readMembers name value (count + 1) ('"' :: cs) =
      (readMembers name value count tail).map fun r => ((n, x) :: r.1, r.2) := by
  rw [readMembers, skipBlank_cons (by decide)]
  simp only [hname, Option.bind_eq_bind, Option.bind_some,
    skipBlank_cons (show isBlank ':' = false by decide), h]
  cases hrest : readMembers name value count tail <;>
    simp [skipBlank_cons (show isBlank ',' = false by decide), hrest]

theorem readMembers_none (hname : name cs = some (n, ':' :: cs')) (h : value n cs' = none) :
    readMembers name value (count + 1) ('"' :: cs) = none := by
  rw [readMembers, skipBlank_cons (by decide)]
  simp only [hname, Option.bind_eq_bind, Option.bind_some,
    skipBlank_cons (show isBlank ':' = false by decide), h]
  rfl

end Parts

/-! ### What follows is part of the text -/

mutual

theorem length_le_write (rest : List Char) : ∀ j : Json, rest.length ≤ (j.write rest).length
  | .null | .bool true | .bool false => by
    simp only [write, List.length_cons]
    omega
  | .number n => by
    rw [write, List.length_append]
    omega
  | .string s => by
    simp only [write, writeString, List.length_cons, List.length_append]
    omega
  | .array items => by
    have h := length_le_writeItems (']' :: rest) items
    simp only [write, List.length_cons] at h ⊢
    omega
  | .object members => by
    have h := length_le_writeMembers ('\x7d' :: rest) members
    simp only [write, List.length_cons] at h ⊢
    omega

theorem length_le_writeItems (rest : List Char) : ∀ items : List Json,
    rest.length ≤ (writeItems items rest).length
  | [] => Nat.le_of_eq (by rw [writeItems])
  | [item] => by
    rw [writeItems]
    exact length_le_write rest item
  | item :: next :: items => by
    have hitem := length_le_write (',' :: writeItems (next :: items) rest) item
    have hitems := length_le_writeItems rest (next :: items)
    rw [List.length_cons] at hitem
    rw [writeItems]
    · omega
    · nofun

theorem length_le_writeMembers (rest : List Char) : ∀ members : List (String × Json),
    rest.length ≤ (writeMembers members rest).length
  | [] => Nat.le_of_eq (by rw [writeMembers])
  | [(name, value)] => by
    have hvalue := length_le_write rest value
    simp only [writeMembers, writeString, List.length_cons, List.length_append]
    omega
  | (name, value) :: next :: members => by
    have hvalue := length_le_write (',' :: writeMembers (next :: members) rest) value
    have hmembers := length_le_writeMembers rest (next :: members)
    simp only [writeMembers, writeString, List.length_cons, List.length_append] at hvalue ⊢
    omega

end

/-! ### Reading back -/

mutual

/-- **A written value is read back if it nests no deeper than the reader goes**, and refused
otherwise. -/
theorem readValue_write : ∀ {j : Json}, j.NumberFree → ∀ (width limit : Nat) (rest : List Char),
    (j.write rest).length ≤ width →
    readValue width limit (j.write rest) = if j.nesting ≤ limit then some (j, rest) else none
  | .null, _, width, limit, rest, _ => by
    rw [write, readValue_scalar (by decide) (by decide) (by decide), nesting,
      if_pos (Nat.zero_le limit), readScalar]
  | .bool true, _, width, limit, rest, _ => by
    rw [write, readValue_scalar (by decide) (by decide) (by decide), nesting,
      if_pos (Nat.zero_le limit), readScalar]
  | .bool false, _, width, limit, rest, _ => by
    rw [write, readValue_scalar (by decide) (by decide) (by decide), nesting,
      if_pos (Nat.zero_le limit), readScalar]
  | .number n, h, _, _, _, _ => nomatch h
  | .string s, _, width, limit, rest, _ => by
    rw [write, writeString, readValue_scalar (by decide) (by decide) (by decide), nesting,
      if_pos (Nat.zero_le limit), readScalar, readText_escape, Option.map_some]
  | .array [], _, width, limit, rest, _ => by
    rw [write, writeItems, nesting, nestingItems]
    cases limit with
    | zero => exact readValue_zero (.inl rfl) _
    | succ limit =>
      rw [if_pos (Nat.le_add_left 1 limit)]
      rfl
  | .array (item :: items), .array hitems, width, limit, rest, hwidth => by
    obtain ⟨c, cs, hwrite, hblank, hclose⟩ :=
      exists_writeItems_eq_cons (hitems item List.mem_cons_self) items (']' :: rest)
    rw [write, List.length_cons] at hwidth
    rw [write, nesting, Nat.add_comm]
    cases limit with
    | zero => rw [readValue_zero (.inl rfl), if_neg (Nat.not_succ_le_zero _)]
    | succ limit =>
      have hread := readItems_write hitems (List.cons_ne_nil _ _) width limit width 0 rest
        (Nat.le_of_succ_le hwidth) (Nat.le_of_succ_le hwidth)
      rw [hwrite] at hread ⊢
      rw [readValue_array hblank hclose, hread]
      simp only [Nat.add_le_add_iff_right]
      split <;> rfl
  | .object [], _, width, limit, rest, _ => by
    rw [write, writeMembers, nesting, nestingMembers]
    cases limit with
    | zero => exact readValue_zero (.inr rfl) _
    | succ limit =>
      rw [if_pos (Nat.le_add_left 1 limit)]
      rfl
  | .object (member :: members), .object hmembers, width, limit, rest, hwidth => by
    obtain ⟨cs, hwrite⟩ := exists_writeMembers_eq_cons member members ('\x7d' :: rest)
    rw [write, List.length_cons] at hwidth
    rw [write, nesting, Nat.add_comm]
    cases limit with
    | zero => rw [readValue_zero (.inr rfl), if_neg (Nat.not_succ_le_zero _)]
    | succ limit =>
      have hread := readMembers_write hmembers (List.cons_ne_nil _ _) width limit width rest
        (Nat.le_of_succ_le hwidth) (Nat.le_of_succ_le hwidth)
      rw [hwrite] at hread ⊢
      rw [readValue_object, hread]
      simp only [Nat.add_le_add_iff_right]
      split <;> rfl

theorem readItems_write : ∀ {items : List Json}, (∀ item ∈ items, item.NumberFree) → items ≠ [] →
    ∀ (width limit count i : Nat) (rest : List Char),
    (writeItems items (']' :: rest)).length ≤ width →
    (writeItems items (']' :: rest)).length ≤ count →
    readItems (fun _ cs => readValue width limit cs) count i (writeItems items (']' :: rest)) =
      if nestingItems items ≤ limit then some (items, rest) else none
  | [], _, hne, _, _, _, _, _, _, _ => absurd rfl hne
  | [item], h, _, width, limit, count, i, rest, hwidth, hcount => by
    have hlength := length_le_write (']' :: rest) item
    rw [writeItems] at hwidth hcount
    rw [List.length_cons] at hlength
    obtain ⟨count, rfl⟩ : ∃ n, count = n + 1 := ⟨count - 1, by omega⟩
    have hitem := readValue_write (h item List.mem_cons_self) width limit (']' :: rest) hwidth
    rw [writeItems, nestingItems, nestingItems, Nat.max_zero]
    by_cases hn : item.nesting ≤ limit
    · rw [if_pos hn] at hitem ⊢
      exact readItems_last _ hitem
    · rw [if_neg hn] at hitem ⊢
      exact readItems_none _ hitem
  | item :: next :: items, h, _, width, limit, count, i, rest, hwidth, hcount => by
    obtain ⟨hfirst, hothers⟩ := List.forall_mem_cons.mp h
    have hwrite : writeItems (item :: next :: items) (']' :: rest) =
        item.write (',' :: writeItems (next :: items) (']' :: rest)) := rfl
    have hlength := length_le_write (',' :: writeItems (next :: items) (']' :: rest)) item
    rw [hwrite] at hwidth hcount
    rw [List.length_cons] at hlength
    obtain ⟨count, rfl⟩ : ∃ n, count = n + 1 := ⟨count - 1, by omega⟩
    have hitem := readValue_write hfirst width limit _ hwidth
    have hitems := readItems_write hothers (List.cons_ne_nil _ _) width limit count (i + 1) rest
      (by omega) (by omega)
    rw [hwrite, nestingItems]
    by_cases hn : item.nesting ≤ limit
    · rw [if_pos hn] at hitem
      rw [readItems_next (fun _ cs => readValue width limit cs) hitem, hitems]
      simp only [Nat.max_le, hn, true_and]
      split <;> rfl
    · rw [if_neg hn] at hitem
      rw [readItems_none (fun _ cs => readValue width limit cs) hitem, if_neg (by omega)]

theorem readMembers_write : ∀ {members : List (String × Json)}, (∀ m ∈ members, m.2.NumberFree) →
    members ≠ [] → ∀ (width limit count : Nat) (rest : List Char),
    (writeMembers members ('\x7d' :: rest)).length ≤ width →
    (writeMembers members ('\x7d' :: rest)).length ≤ count →
    readMembers readText (fun _ cs => readValue width limit cs) count
        (writeMembers members ('\x7d' :: rest)) =
      if nestingMembers members ≤ limit then some (members, rest) else none
  | [], _, hne, _, _, _, _, _, _ => absurd rfl hne
  | [(name, value)], h, _, width, limit, count, rest, hwidth, hcount => by
    have hlength := length_le_write ('\x7d' :: rest) value
    simp only [writeMembers, writeString, List.length_cons, List.length_append]
      at hwidth hcount hlength
    obtain ⟨count, rfl⟩ : ∃ n, count = n + 1 := ⟨count - 1, by omega⟩
    have hname := readText_escape name (':' :: value.write ('\x7d' :: rest))
    have hfree : value.NumberFree := h _ List.mem_cons_self
    have hvalue := readValue_write hfree width limit ('\x7d' :: rest) (by omega)
    rw [writeMembers, writeString, nestingMembers, nestingMembers, Nat.max_zero]
    by_cases hn : value.nesting ≤ limit
    · rw [if_pos hn] at hvalue ⊢
      exact readMembers_last readText _ hname hvalue
    · rw [if_neg hn] at hvalue ⊢
      exact readMembers_none readText _ hname hvalue
  | (name, value) :: next :: members, h, _, width, limit, count, rest, hwidth, hcount => by
    obtain ⟨hfirst, hothers⟩ : value.NumberFree ∧ ∀ m ∈ next :: members, m.2.NumberFree :=
      List.forall_mem_cons.mp h
    have hwrite : writeMembers ((name, value) :: next :: members) ('\x7d' :: rest) =
        writeString name (':' :: value.write (',' :: writeMembers (next :: members)
          ('\x7d' :: rest))) := rfl
    have hlength := length_le_write (',' :: writeMembers (next :: members) ('\x7d' :: rest)) value
    simp only [hwrite, writeString, List.length_cons, List.length_append]
      at hwidth hcount hlength
    obtain ⟨count, rfl⟩ : ∃ n, count = n + 1 := ⟨count - 1, by omega⟩
    have hname := readText_escape name
      (':' :: value.write (',' :: writeMembers (next :: members) ('\x7d' :: rest)))
    have hvalue := readValue_write hfirst width limit
      (',' :: writeMembers (next :: members) ('\x7d' :: rest)) (by omega)
    have hmembers := readMembers_write hothers (List.cons_ne_nil _ _) width limit count rest
      (by omega) (by omega)
    rw [hwrite, writeString, nestingMembers]
    by_cases hn : value.nesting ≤ limit
    · rw [if_pos hn] at hvalue
      rw [readMembers_next readText (fun _ cs => readValue width limit cs) hname hvalue, hmembers]
      simp only [Nat.max_le, hn, true_and]
      split <;> rfl
    · rw [if_neg hn] at hvalue
      rw [readMembers_none readText (fun _ cs => readValue width limit cs) hname hvalue,
        if_neg (by omega)]

end

/-- **A whole text that holds the compact form of a value is read as the value** if it nests
at most `limit` deep, and refused otherwise. -/
theorem ofTextWithin?_compact {j : Json} (hj : j.NumberFree) (limit : Nat) :
    ofTextWithin? limit j.compact =
      if nestingOfText j.compact ≤ limit then some j else none := by
  have hread := readValue_write hj _ limit [] (Nat.le_refl _)
  rw [nestingOfText_compact hj]
  simp only [ofTextWithin?, readAll?, compact, String.toList_ofList, hread]
  by_cases h : j.nesting ≤ limit
  · rw [if_pos h, if_pos h]
    rfl
  · rw [if_neg h, if_neg h]

end SborSchema.Json
