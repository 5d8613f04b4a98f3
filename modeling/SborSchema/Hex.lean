/-
# Byte strings in hexadecimal

A byte string is written as two hexadecimal digits a byte, most significant
first. Reading takes digits of both cases and works on the UTF-8 bytes of the
text: it first wants an even number of them, then reports the first that is
not a digit.

Key definitions: `Hex.decode`, `Hex.Fault`, `Hex.lower`.
-/
import SborSchema.Digits
import SborSchema.Text.Quoted

namespace SborSchema.Hex

/-- Why a text is not a byte string. -/
inductive Fault
  | oddLength
  | badDigit (byte : UInt8) (position : Nat)
deriving DecidableEq, Repr

/-- The wording of a fault; the byte is shown as the character of its number. -/
def Fault.message : Fault → String
  | oddLength => "Odd number of digits"
  | badDigit byte position =>
    "Invalid character " ++ Text.quoteChar (Char.ofNat byte.toNat) ++ " at position " ++
      Digits.text position

/-- The number of a hexadecimal digit, given as a byte of ASCII. -/
def digit? (b : UInt8) : Option UInt8 :=
  if 0x30 ≤ b && b ≤ 0x39 then some (b - 0x30)
  else if 0x61 ≤ b && b ≤ 0x66 then some (b - 0x61 + 10)
  else if 0x41 ≤ b && b ≤ 0x46 then some (b - 0x41 + 10)
  else none

/-- Reads the digits two by two; `position` counts the digits before. -/
def decodePairs : List UInt8 → Nat → Except Fault (List UInt8)
  | [], _ => .ok []
  | [_], _ => .error .oddLength
  | a :: b :: rest, position =>
    match digit? a, digit? b with
    | none, _ => .error (.badDigit a position)
    | some _, none => .error (.badDigit b (position + 1))
    | some high, some low => do
      let bytes ← decodePairs rest (position + 2)
      return (16 * high + low) :: bytes

/-- The UTF-8 bytes of a text. -/
def utf8 (text : String) : List UInt8 := text.toList.flatMap String.utf8EncodeChar

/-- The byte string a text stands for. -/
def decode (text : String) : Except Fault (List UInt8) :=
  let bytes := utf8 text
  if bytes.length % 2 = 1 then .error .oddLength else decodePairs bytes 0

/-- A character in lower case, if it is an ASCII letter. -/
def lowerChar (c : Char) : Char :=
  if 'A' ≤ c && c ≤ 'Z' then Char.ofNat (c.toNat + 32) else c

/-- A text with its ASCII letters in lower case. -/
def lower (text : String) : String := String.ofList (text.toList.map lowerChar)

end SborSchema.Hex
