/-
# How deep arrays and objects nest

The nesting of a JSON value is the greatest number of arrays and objects that
lie in one another in it. That of a text is the greatest number of brackets and
braces that are open at one place, those in strings not counted. The compact
form of a value nests as deep as the value: quotes and backslashes are escaped,
so the walk over the text leaves a string where the writer closed it
(`Json.nestingOfText_compact`).

Key definitions: `Json.nesting`, `Json.deepestOpen`, `Json.nestingOfText`, `Json.NumberFree`.
Key theorems: `Json.deepestInString_writeString`, `Json.deepestOpen_write`,
`Json.nestingOfText_compact`.
-/
import SborSchema.Proofs.Json.Strings

namespace SborSchema.Json

/-! ### Nesting -/

mutual

/-- How many arrays and objects lie in one another. -/
def nesting : Json → Nat
  | null => 0
  | bool _ => 0
  | number _ => 0
  | string _ => 0
  | array items => 1 + nestingItems items
  | object members => 1 + nestingMembers members

/-- The greatest nesting of an item, 0 for none. -/
def nestingItems : List Json → Nat
  | [] => 0
  | item :: items => max item.nesting (nestingItems items)

/-- The greatest nesting of the value of a member, 0 for none. -/
def nestingMembers : List (String × Json) → Nat
  | [] => 0
  | (_, value) :: members => max value.nesting (nestingMembers members)

end

mutual

/-- The greatest number of brackets and braces open at one place of a text outside of strings,
where `level` are open, or `best` if that is greater. -/
def deepestOpen (level best : Nat) : List Char → Nat
  | [] => best
  | c :: rest =>
    if c = '"' then deepestInString level best rest
    else if c = '[' ∨ c = '\x7b' then deepestOpen (level + 1) (max best (level + 1)) rest
    else if c = ']' ∨ c = '\x7d' then deepestOpen (level - 1) best rest
    else deepestOpen level best rest

/-- The same from a place inside a string, where a backslash hides the character after it. -/
def deepestInString (level best : Nat) : List Char → Nat
  | [] => best
  | '\\' :: _ :: rest => deepestInString level best rest
  | c :: rest => if c = '"' then deepestOpen level best rest else deepestInString level best rest

end

/-- How many arrays and objects lie in one another in a text. -/
def nestingOfText (text : String) : Nat := deepestOpen 0 0 text.toList

/-- No number stands in the value. -/
inductive NumberFree : Json → Prop
  | null : NumberFree null
  | bool (b : Bool) : NumberFree (bool b)
  | string (s : String) : NumberFree (string s)
  | array {items : List Json} (hitems : ∀ item ∈ items, NumberFree item) :
      NumberFree (array items)
  | object {members : List (String × Json)} (hmembers : ∀ m ∈ members, NumberFree m.2) :
      NumberFree (object members)

/-! ### The nesting of a written value -/

variable {level best : Nat}

theorem deepestInString_cons {c : Char} (hquote : c ≠ '"') (hslash : c ≠ '\\') (rest : List Char) :
    deepestInString level best (c :: rest) = deepestInString level best rest := by
  rw [deepestInString, if_neg hquote]
  exact fun _ _ h _ => hslash h

theorem hexDigit_ne : ∀ n < 16, hexDigit n ≠ '"' ∧ hexDigit n ≠ '\\' := by decide

/-- What is written for one character of a string does not close the string. -/
theorem deepestInString_escape (c : Char) (rest : List Char) :
    deepestInString level best (escape c ++ rest) = deepestInString level best rest := by
  have hescaped := escaped_escape c
  generalize escape c = written at hescaped ⊢
  cases hescaped with
  | short hx hread =>
    simp only [List.cons_append, List.nil_append]
    rw [deepestInString]
  | numbered hcontrol =>
    obtain ⟨hquote, hslash⟩ := hexDigit_ne (c.toNat / 16) (by omega)
    obtain ⟨hquote', hslash'⟩ := hexDigit_ne (c.toNat % 16) (by omega)
    simp only [List.cons_append, List.nil_append]
    rw [deepestInString, deepestInString_cons (by decide) (by decide),
      deepestInString_cons (by decide) (by decide), deepestInString_cons hquote hslash,
      deepestInString_cons hquote' hslash']
  | plain hquote hslash hcontrol => exact deepestInString_cons hquote hslash rest

/-- A written string opens and closes nothing. -/
theorem deepestInString_flatMap_escape (rest : List Char) : ∀ cs : List Char,
    deepestInString level best (cs.flatMap escape ++ '"' :: rest) = deepestOpen level best rest
  | [] => by
    rw [List.flatMap_nil, List.nil_append, deepestInString, if_pos rfl]
    exact fun _ _ h _ => absurd h (by decide)
  | c :: cs => by
    rw [List.flatMap_cons, List.append_assoc, deepestInString_escape,
      deepestInString_flatMap_escape rest cs]

theorem deepestOpen_writeString (s : String) (rest : List Char) :
    deepestOpen level best (writeString s rest) = deepestOpen level best rest := by
  rw [writeString, deepestOpen, if_pos rfl, deepestInString_flatMap_escape]

/-- A character outside of strings that is neither a quote nor a bracket opens nothing. -/
theorem deepestOpen_cons {c : Char} (hc : c ∉ ['"', '[', '\x7b', ']', '\x7d'])
    (rest : List Char) : deepestOpen level best (c :: rest) = deepestOpen level best rest := by
  simp only [List.mem_cons, List.not_mem_nil, or_false, not_or] at hc
  obtain ⟨hquote, hbracket, hbrace, hbracket', hbrace'⟩ := hc
  rw [deepestOpen, if_neg hquote, if_neg (not_or.mpr ⟨hbracket, hbrace⟩),
    if_neg (not_or.mpr ⟨hbracket', hbrace'⟩)]

theorem deepestOpen_append (cs : List Char) (hcs : ∀ c ∈ cs, c ∉ ['"', '[', '\x7b', ']', '\x7d'])
    (rest : List Char) : deepestOpen level best (cs ++ rest) = deepestOpen level best rest := by
  induction cs with
  | nil => rfl
  | cons c cs ih =>
    obtain ⟨hc, hcs⟩ := List.forall_mem_cons.mp hcs
    rw [List.cons_append, deepestOpen_cons hc, ih hcs]

theorem deepestOpen_open {c : Char} (hc : c = '[' ∨ c = '\x7b') (rest : List Char) :
    deepestOpen level best (c :: rest) = deepestOpen (level + 1) (max best (level + 1)) rest := by
  have hquote : c ≠ '"' := by rcases hc with rfl | rfl <;> decide
  rw [deepestOpen, if_neg hquote, if_pos hc]

theorem deepestOpen_close {c : Char} (hc : c = ']' ∨ c = '\x7d') (rest : List Char) :
    deepestOpen (level + 1) best (c :: rest) = deepestOpen level best rest := by
  have hquote : c ≠ '"' := by rcases hc with rfl | rfl <;> decide
  have hopen : ¬(c = '[' ∨ c = '\x7b') := by rcases hc with rfl | rfl <;> decide
  rw [deepestOpen, if_neg hquote, if_neg hopen, if_pos hc, Nat.add_sub_cancel]

mutual

/-- **The walk over a written value gets as much deeper as the value nests**, and leaves it at
the level where it was met. -/
theorem deepestOpen_write : ∀ {j : Json}, j.NumberFree → ∀ {level best : Nat} (rest : List Char),
    level ≤ best →
    deepestOpen level best (j.write rest) = deepestOpen level (max best (level + j.nesting)) rest
  | .null, _, level, best, rest, hbest => by
    rw [nesting, Nat.add_zero, Nat.max_eq_left hbest]
    exact deepestOpen_append ['n', 'u', 'l', 'l'] (by simp) rest
  | .bool true, _, level, best, rest, hbest => by
    rw [nesting, Nat.add_zero, Nat.max_eq_left hbest]
    exact deepestOpen_append ['t', 'r', 'u', 'e'] (by simp) rest
  | .bool false, _, level, best, rest, hbest => by
    rw [nesting, Nat.add_zero, Nat.max_eq_left hbest]
    exact deepestOpen_append ['f', 'a', 'l', 's', 'e'] (by simp) rest
  | .number n, h, _, _, _, _ => nomatch h
  | .string s, _, level, best, rest, hbest => by
    rw [write, nesting, Nat.add_zero, Nat.max_eq_left hbest, deepestOpen_writeString]
  | .array items, .array hitems, level, best, rest, _ => by
    have hmax : max (max best (level + 1)) (level + 1 + nestingItems items) =
        max best (level + (1 + nestingItems items)) := by omega
    rw [write, nesting, deepestOpen_open (.inl rfl),
      deepestOpen_writeItems hitems _ (Nat.le_max_right _ _), hmax, deepestOpen_close (.inl rfl)]
  | .object members, .object hmembers, level, best, rest, _ => by
    have hmax : max (max best (level + 1)) (level + 1 + nestingMembers members) =
        max best (level + (1 + nestingMembers members)) := by omega
    rw [write, nesting, deepestOpen_open (.inr rfl),
      deepestOpen_writeMembers hmembers _ (Nat.le_max_right _ _), hmax,
      deepestOpen_close (.inr rfl)]

theorem deepestOpen_writeItems : ∀ {items : List Json}, (∀ item ∈ items, item.NumberFree) →
    ∀ {level best : Nat} (rest : List Char), level ≤ best →
    deepestOpen level best (writeItems items rest) =
      deepestOpen level (max best (level + nestingItems items)) rest
  | [], _, level, best, rest, hbest => by
    rw [writeItems, nestingItems, Nat.add_zero, Nat.max_eq_left hbest]
  | [item], h, level, best, rest, hbest => by
    rw [writeItems, nestingItems, nestingItems, Nat.max_zero,
      deepestOpen_write (h item List.mem_cons_self) rest hbest]
  | item :: next :: items, h, level, best, rest, hbest => by
    obtain ⟨hitem, hitems⟩ := List.forall_mem_cons.mp h
    have hmax : max (max best (level + item.nesting)) (level + nestingItems (next :: items)) =
        max best (level + max item.nesting (nestingItems (next :: items))) := by omega
    rw [writeItems, nestingItems, deepestOpen_write hitem _ hbest,
      deepestOpen_cons (by decide),
      deepestOpen_writeItems hitems _ (Nat.le_trans hbest (Nat.le_max_left _ _)), hmax]
    nofun

theorem deepestOpen_writeMembers : ∀ {members : List (String × Json)},
    (∀ m ∈ members, m.2.NumberFree) → ∀ {level best : Nat} (rest : List Char), level ≤ best →
    deepestOpen level best (writeMembers members rest) =
      deepestOpen level (max best (level + nestingMembers members)) rest
  | [], _, level, best, rest, hbest => by
    rw [writeMembers, nestingMembers, Nat.add_zero, Nat.max_eq_left hbest]
  | [(name, value)], h, level, best, rest, hbest => by
    rw [writeMembers, nestingMembers, nestingMembers, Nat.max_zero, deepestOpen_writeString,
      deepestOpen_cons (by decide),
      deepestOpen_write (h _ List.mem_cons_self) rest hbest]
  | (name, value) :: next :: members, h, level, best, rest, hbest => by
    obtain ⟨hvalue, hmembers⟩ := List.forall_mem_cons.mp h
    have hmax : max (max best (level + value.nesting)) (level + nestingMembers (next :: members)) =
        max best (level + max value.nesting (nestingMembers (next :: members))) := by omega
    rw [writeMembers, nestingMembers, deepestOpen_writeString,
      deepestOpen_cons (by decide), deepestOpen_write hvalue _ hbest,
      deepestOpen_cons (by decide),
      deepestOpen_writeMembers hmembers _ (Nat.le_trans hbest (Nat.le_max_left _ _)), hmax]
    nofun

end

/-- **The compact form of a value nests as deep as the value.** -/
theorem nestingOfText_compact {j : Json} (hj : j.NumberFree) :
    nestingOfText j.compact = j.nesting := by
  rw [nestingOfText, compact, String.toList_ofList, deepestOpen_write hj [] (Nat.le_refl 0),
    deepestOpen, Nat.zero_add, Nat.zero_max]

end SborSchema.Json
