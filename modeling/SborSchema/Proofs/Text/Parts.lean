/-
# Where the parts of a text end

A word ends where a character follows that no word has, and an item of a list
ends where the separator or the closing bracket follows. So a text that is put
together from words and lists can be taken apart in one way only: if two such
texts with something behind them are the same, then so are the words, the items
and what stands behind.

Key definitions: `Text.isWordChar`, `Text.IsWord`, `Text.LeavesWord`.
Key theorems: `Text.word_append_inj`, `Text.intercalate_append_inj`.
-/
import SborSchema.Proofs.Lists
import SborSchema.TypeExpr

namespace SborSchema.Text

/-! ### Words -/

/-- A letter or a digit of ASCII, or an underscore. -/
def isWordChar (c : Char) : Bool := c.isAlphanum || c == '_'

/-- One or more letters and digits of ASCII and underscores. -/
def IsWord (s : String) : Prop := s.toList ≠ [] ∧ ∀ c ∈ s.toList, isWordChar c = true

instance (s : String) : Decidable (IsWord s) :=
  decidable_of_iff ((!s.toList.isEmpty && s.toList.all isWordChar) = true) (by simp [IsWord])

/-- What may follow a word: nothing that could belong to it. -/
def LeavesWord (rest : List Char) : Prop := ∀ c ∈ rest.head?, isWordChar c = false

theorem leavesWord_cons {c : Char} (hc : isWordChar c = false) (rest : List Char) :
    LeavesWord (c :: rest) := by
  intro d hd
  obtain rfl : c = d := Option.some.inj hd
  exact hc

theorem leavesWord_nil : LeavesWord [] := by simp [LeavesWord]

/-- A text that starts with a word starts with no other character. -/
theorem head?_word_append {word : String} {c : Char} (hword : IsWord word)
    (hc : isWordChar c = false) (rest : List Char) : (word.toList ++ rest).head? ≠ some c := by
  cases hchars : word.toList with
  | nil => exact absurd hchars hword.1
  | cons d ds =>
    intro h
    obtain rfl : d = c := Option.some.inj h
    have hd := hword.2 d (hchars ▸ List.mem_cons_self)
    rw [hc] at hd
    cases hd

/-- **A word can be told from what follows it.** -/
theorem word_append_inj {word word' : String} {rest rest' : List Char} (hword : IsWord word)
    (hword' : IsWord word') (hrest : LeavesWord rest) (hrest' : LeavesWord rest')
    (h : word.toList ++ rest = word'.toList ++ rest') : word = word' ∧ rest = rest' := by
  have hchars : word.toList = word'.toList := by
    rw [← takeWhile_append_exact hword.2 hrest, h, takeWhile_append_exact hword'.2 hrest']
  rw [hchars, List.append_cancel_left_eq] at h
  exact ⟨String.toList_inj.mp hchars, h⟩

/-! ### Lists -/

section Lists

/-- All items but the first have the separator in front of them. -/
theorem intercalate_cons (separator : List Char) : ∀ (x : List Char) (xs : List (List Char)),
    separator.intercalate (x :: xs) = x ++ xs.flatMap (separator ++ ·)
  | x, [] => by simp [List.intercalate]
  | x, y :: ys => by
    rw [List.intercalate_cons_cons, intercalate_cons separator y ys, List.flatMap_cons]
    simp only [List.append_assoc]

variable {α : Type} {write : α → List Char} {first close : Char} {more rest rest' : List Char}
  {xs ys : List α}

/-- No item of the list starts as the closing bracket does. -/
def ItemsStart (write : α → List Char) (close : Char) (xs : List α) : Prop :=
  ∀ x ∈ xs, ∀ rest, (write x ++ rest).head? ≠ some close

/-- What may follow an item of a list: the first character of the separator, or the closing
bracket. -/
def FollowsItem (first close : Char) (rest : List Char) : Prop :=
  rest.head? = some first ∨ rest.head? = some close

/-- The items of two lists can be told from what follows them. -/
def ItemsEnd (write : α → List Char) (first close : Char) (xs ys : List α) : Prop :=
  ∀ x ∈ xs, ∀ y ∈ ys, ∀ rest rest', FollowsItem first close rest → FollowsItem first close rest' →
    write x ++ rest = write y ++ rest' → x = y ∧ rest = rest'

theorem ItemsEnd.later {x y : α} (h : ItemsEnd write first close (x :: xs) (y :: ys)) :
    ItemsEnd write first close xs ys :=
  fun x hx y hy => h x (List.mem_cons_of_mem _ hx) y (List.mem_cons_of_mem _ hy)

/-- The items after the first one, each behind the separator, and the closing bracket. -/
def laterItems (write : α → List Char) (separator : List Char) (close : Char) (xs : List α)
    (rest : List Char) : List Char :=
  xs.flatMap (fun x => separator ++ write x) ++ close :: rest

theorem followsItem_laterItems (xs : List α) (rest : List Char) :
    FollowsItem first close (laterItems write (first :: more) close xs rest) := by
  cases xs with
  | nil => exact .inr rfl
  | cons x xs => exact .inl rfl

theorem laterItems_cons (separator : List Char) (x : α) (xs : List α) (rest : List Char) :
    laterItems write separator close (x :: xs) rest =
      separator ++ (write x ++ laterItems write separator close xs rest) := by
  simp only [laterItems, List.flatMap_cons, List.append_assoc]

theorem intercalate_eq_laterItems (separator : List Char) (x : α) (xs : List α) (rest : List Char) :
    separator.intercalate ((x :: xs).map write) ++ close :: rest =
      write x ++ laterItems write separator close xs rest := by
  rw [List.map_cons, intercalate_cons, List.flatMap_map, List.append_assoc]
  rfl

/-- The items after the first one can be told from one another and from what follows them. -/
theorem laterItems_append_inj (hclose : first ≠ close) (hend : ItemsEnd write first close xs ys)
    (h : laterItems write (first :: more) close xs rest =
      laterItems write (first :: more) close ys rest') : xs = ys ∧ rest = rest' := by
  induction xs generalizing ys with
  | nil =>
    cases ys with
    | nil => exact ⟨rfl, (List.cons.inj h).2⟩
    | cons y ys => exact absurd (List.cons.inj h).1.symm hclose
  | cons x xs ih =>
    cases ys with
    | nil => exact absurd (List.cons.inj h).1 hclose
    | cons y ys =>
      rw [laterItems_cons, laterItems_cons, List.append_cancel_left_eq] at h
      obtain ⟨rfl, hlater⟩ := hend x List.mem_cons_self y List.mem_cons_self _ _
        (followsItem_laterItems xs rest) (followsItem_laterItems ys rest') h
      obtain ⟨rfl, hrest⟩ := ih hend.later hlater
      exact ⟨rfl, hrest⟩

/-- **The items of a list in brackets can be told from one another and from what follows the
list.** -/
theorem intercalate_append_inj (hclose : first ≠ close) (hstart : ItemsStart write close xs)
    (hstart' : ItemsStart write close ys) (hend : ItemsEnd write first close xs ys)
    (h : (first :: more).intercalate (xs.map write) ++ close :: rest =
      (first :: more).intercalate (ys.map write) ++ close :: rest') : xs = ys ∧ rest = rest' := by
  cases xs with
  | nil =>
    cases ys with
    | nil => exact ⟨rfl, (List.cons.inj h).2⟩
    | cons y ys =>
      rw [intercalate_eq_laterItems] at h
      exact absurd (congrArg List.head? h).symm (hstart' y List.mem_cons_self _)
  | cons x xs =>
    cases ys with
    | nil =>
      rw [intercalate_eq_laterItems] at h
      exact absurd (congrArg List.head? h) (hstart x List.mem_cons_self _)
    | cons y ys =>
      rw [intercalate_eq_laterItems, intercalate_eq_laterItems] at h
      obtain ⟨rfl, hlater⟩ := hend x List.mem_cons_self y List.mem_cons_self _ _
        (followsItem_laterItems xs rest) (followsItem_laterItems ys rest') h
      obtain ⟨rfl, hrest⟩ := laterItems_append_inj hclose hend.later hlater
      exact ⟨rfl, hrest⟩

end Lists

end SborSchema.Text
