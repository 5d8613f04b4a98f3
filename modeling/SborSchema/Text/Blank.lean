/-
# Blank characters

The characters with the Unicode property White_Space, and the text without
those at its two ends.

Key definitions: `isBlank`, `trim`.
-/

namespace SborSchema.Text

/-- Whether a character has the property White_Space. -/
def isBlank (c : Char) : Bool :=
  let n := c.toNat
  (0x09 ≤ n && n ≤ 0x0d) || n == 0x20 || n == 0x85 || n == 0xa0 || n == 0x1680 ||
    (0x2000 ≤ n && n ≤ 0x200a) || n == 0x2028 || n == 0x2029 || n == 0x202f ||
    n == 0x205f || n == 0x3000

/-- A text without the blanks at its ends. -/
def trim (cs : List Char) : List Char :=
  ((cs.dropWhile isBlank).reverse.dropWhile isBlank).reverse

theorem length_dropWhile_le {α : Type} (p : α → Bool) (xs : List α) :
    (xs.dropWhile p).length ≤ xs.length :=
  (List.dropWhile_sublist p).length_le

/-- Trimming never lengthens a text. -/
theorem length_trim_le (cs : List Char) : (trim cs).length ≤ cs.length := by
  have h := length_dropWhile_le isBlank (cs.dropWhile isBlank).reverse
  have h' := length_dropWhile_le isBlank cs
  simp only [trim, List.length_reverse] at h ⊢
  omega

end SborSchema.Text
