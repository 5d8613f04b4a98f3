/-
# Quoted text

A text inside a message or a printed value stands between double quotes. The
quote, the backslash and the four common control characters have a short
escape, every other character that is not visible is written by its number in
braces, and the rest stands for itself. A single character is quoted the same
way between apostrophes, with the roles of the two quotes exchanged.

Key definitions: `quote`, `quoteChar`.
-/
import SborSchema.Text.Visible

namespace SborSchema.Text

/-- The lower case hexadecimal digits of a number, without leading zeros. -/
def hexDigits (n : Nat) : List Char := Nat.toDigits 16 n

/-- One character of a text quoted with `mark`. -/
def escape (mark : Char) (c : Char) : List Char :=
  if c = '\x00' then ['\\', '0']
  else if c = '\t' then ['\\', 't']
  else if c = '\r' then ['\\', 'r']
  else if c = '\n' then ['\\', 'n']
  else if c = '\\' then ['\\', '\\']
  else if c = mark then ['\\', c]
  else if isVisible c then [c]
  else ['\\', 'u', '\x7b'] ++ hexDigits c.toNat ++ ['\x7d']

/-- A text between double quotes. -/
def quote (s : String) : String :=
  String.ofList ('"' :: s.toList.flatMap (escape '"') ++ ['"'])

/-- A character between apostrophes. -/
def quoteChar (c : Char) : String :=
  String.ofList ('\'' :: escape '\'' c ++ ['\''])

end SborSchema.Text
