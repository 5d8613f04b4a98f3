/-
# Written strings are read back

The writer puts each character of a string as it is, or as a short escape, or
by its number, and the reader takes each of them for the character again. A
character that closes a string or starts an escape is never put as it is, so a
string is read up to the quote that the writer put at its end, whatever stands
behind it.

Key definitions: `Json.Escaped`.
Key theorems: `Json.escaped_escape`, `Json.readString_escape`, `Json.readText_escape`.
-/
import Mathlib.Tactic.SplitIfs
import SborSchema.Json.Reader
import SborSchema.Json.Writer

namespace SborSchema.Json

/-- The ways to write a character of a string. -/
inductive Escaped (c : Char) : List Char → Prop
  | short {x : Char} (hx : x ≠ 'u') (hread : shortEscape? x = some c) : Escaped c ['\\', x]
  | numbered (hcontrol : c.toNat < 0x20) :
      Escaped c ['\\', 'u', '0', '0', hexDigit (c.toNat / 16), hexDigit (c.toNat % 16)]
  | plain (hquote : c ≠ '"') (hslash : c ≠ '\\') (hcontrol : ¬c.toNat < 0x20) : Escaped c [c]

/-- Every character is written in one of these ways. -/
theorem escaped_escape (c : Char) : Escaped c (escape c) := by
  unfold escape
  by_cases hquote : c = '"'
  · subst hquote
    exact .short (x := '"') (by decide) rfl
  by_cases hslash : c = '\\'
  · subst hslash
    exact .short (x := '\\') (by decide) rfl
  rw [if_neg hquote, if_neg hslash]
  split_ifs with hb hf hn hr ht hcontrol
  · exact .short (by decide) (by rw [hb]; rfl)
  · exact .short (by decide) (by rw [hf]; rfl)
  · exact .short (by decide) (by rw [hn]; rfl)
  · exact .short (by decide) (by rw [hr]; rfl)
  · exact .short (by decide) (by rw [ht]; rfl)
  · exact .numbered hcontrol
  · exact .plain hquote hslash hcontrol

/-- The two last digits of the number of a control character give the number. -/
theorem hexUnit?_hexDigit : ∀ n < 0x20,
    hexUnit? '0' '0' (hexDigit (n / 16)) (hexDigit (n % 16)) = some n := by decide

/-- A written character is read back. -/
theorem readString_escape (c : Char) (rest : List Char) :
    readString (escape c ++ rest) = (readString rest).map (consChar c) := by
  have hescaped := escaped_escape c
  generalize escape c = written at hescaped ⊢
  cases hescaped with
  | @short x hx hread =>
    change readString ('\\' :: x :: rest) = _
    rw [readString, hread]
    exact fun _ _ _ _ _ h _ => hx h
  | numbered hcontrol =>
    have hunit := hexUnit?_hexDigit c.toNat hcontrol
    have hhigh : isHighHalf c.toNat = false := by
      simp only [isHighHalf, Bool.and_eq_false_iff, decide_eq_false_iff_not]
      omega
    have hlow : isLowHalf c.toNat = false := by
      simp only [isLowHalf, Bool.and_eq_false_iff, decide_eq_false_iff_not]
      omega
    change readString ('\\' :: 'u' :: '0' :: '0' :: hexDigit (c.toNat / 16) ::
      hexDigit (c.toNat % 16) :: rest) = _
    rw [readString, hunit]
    simp only [hhigh, hlow, Bool.false_eq_true, if_false, Char.ofNat_toNat]
  | plain hquote hslash hcontrol =>
    change readString (c :: rest) = _
    rw [readString, if_neg hcontrol]
    · exact hquote
    · exact fun _ _ _ _ _ h _ => hslash h
    · exact fun _ _ h _ => hslash h

/-- A written string is read back up to its closing quote. -/
theorem readString_flatMap_escape (rest : List Char) : ∀ cs : List Char,
    readString (cs.flatMap escape ++ '"' :: rest) = some (cs, rest)
  | [] => rfl
  | c :: cs => by
    rw [List.flatMap_cons, List.append_assoc, readString_escape,
      readString_flatMap_escape rest cs]
    rfl

theorem readText_escape (s : String) (rest : List Char) :
    readText (s.toList.flatMap escape ++ '"' :: rest) = some (s, rest) := by
  rw [readText, readString_flatMap_escape, Option.map_some, String.ofList_toList]

end SborSchema.Json
