/-
# Writing JSON text

The compact form has no blanks. The indented form puts each item and member on
a line of its own, two blanks deeper than what holds it; an empty array or
object stays closed. Quotes, backslashes and the characters below the space
are escaped in strings, and nothing else. An exponent has its sign.

Key definitions: `Json.write`, `Json.compact`, `Json.indented`.
-/
import SborSchema.Json

namespace SborSchema.Json

/-- A hexadecimal digit of a number below sixteen. -/
def hexDigit (n : Nat) : Char :=
  if n < 10 then Char.ofNat ('0'.toNat + n) else Char.ofNat ('a'.toNat + (n - 10))

/-- One character of a string. -/
def escape (c : Char) : List Char :=
  if c = '"' then ['\\', '"']
  else if c = '\\' then ['\\', '\\']
  else if c = '\x08' then ['\\', 'b']
  else if c = '\x0c' then ['\\', 'f']
  else if c = '\n' then ['\\', 'n']
  else if c = '\r' then ['\\', 'r']
  else if c = '\t' then ['\\', 't']
  else if c.toNat < 0x20 then
    ['\\', 'u', '0', '0', hexDigit (c.toNat / 16), hexDigit (c.toNat % 16)]
  else [c]

/-- A string between its quotes, in front of `rest`. -/
def writeString (s : String) (rest : List Char) : List Char :=
  '"' :: (s.toList.flatMap escape ++ '"' :: rest)

mutual

/-- The compact form in front of `rest`. -/
def write : Json → List Char → List Char
  | null, rest => 'n' :: 'u' :: 'l' :: 'l' :: rest
  | bool true, rest => 't' :: 'r' :: 'u' :: 'e' :: rest
  | bool false, rest => 'f' :: 'a' :: 'l' :: 's' :: 'e' :: rest
  | number n, rest => (n.text .always).toList ++ rest
  | string s, rest => writeString s rest
  | array items, rest => '[' :: writeItems items (']' :: rest)
  | object members, rest => '\x7b' :: writeMembers members ('\x7d' :: rest)

/-- The items of an array with commas between them, in front of `rest`. -/
def writeItems : List Json → List Char → List Char
  | [], rest => rest
  | [item], rest => write item rest
  | item :: items, rest => write item (',' :: writeItems items rest)

/-- The members of an object with commas between them, in front of `rest`. -/
def writeMembers : List (String × Json) → List Char → List Char
  | [], rest => rest
  | [(name, value)], rest => writeString name (':' :: write value rest)
  | (name, value) :: members, rest =>
    writeString name (':' :: write value (',' :: writeMembers members rest))

end

/-- The compact form. -/
def compact (j : Json) : String := String.ofList (j.write [])

/-- A line break and the blanks of a level, in front of `rest`. -/
def newLine (level : Nat) (rest : List Char) : List Char :=
  '\n' :: (List.replicate (2 * level) ' ' ++ rest)

mutual

/-- The indented form at a level, in front of `rest`. -/
def writeIndented (level : Nat) : Json → List Char → List Char
  | array [], rest => '[' :: ']' :: rest
  | array (item :: items), rest =>
    '[' :: writeIndentedItems (level + 1) (item :: items) (newLine level (']' :: rest))
  | object [], rest => '\x7b' :: '\x7d' :: rest
  | object (member :: members), rest =>
    '\x7b' :: writeIndentedMembers (level + 1) (member :: members) (newLine level ('\x7d' :: rest))
  | other, rest => write other rest

/-- The items of an array, each on its line, in front of `rest`. -/
def writeIndentedItems (level : Nat) : List Json → List Char → List Char
  | [], rest => rest
  | [item], rest => newLine level (writeIndented level item rest)
  | item :: items, rest =>
    newLine level (writeIndented level item (',' :: writeIndentedItems level items rest))

/-- The members of an object, each on its line, in front of `rest`. -/
def writeIndentedMembers (level : Nat) : List (String × Json) → List Char → List Char
  | [], rest => rest
  | [(name, value)], rest =>
    newLine level (writeString name (':' :: ' ' :: writeIndented level value rest))
  | (name, value) :: members, rest =>
    newLine level (writeString name (':' :: ' ' ::
      writeIndented level value (',' :: writeIndentedMembers level members rest)))

end

/-- The indented form. -/
def indented (j : Json) : String := String.ofList (j.writeIndented 0 [])

end SborSchema.Json
