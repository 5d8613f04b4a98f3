/-
# The characters of a document with their places

A document is read as a list of characters, each with its line, its column and
its distance from the start in bytes. A line break, however it is written, is
one character; the last character is a NUL, which no document holds, so that
every reader finds a character to stop at. A text is looked at in portions, and
a character that is not allowed spoils the whole of its portion.

Key definitions: `Yaml.Cell`, `Yaml.Cell.ofText`, `Yaml.Cell.soundPart`.
-/
import SborSchema.Yaml

namespace SborSchema.Yaml

/-- A character of a document at its place. -/
structure Cell where
  char : Char
  index : Nat
  line : Nat
  column : Nat
deriving DecidableEq, Repr

namespace Cell

/-- Whether a document may hold the character. -/
def isAllowed (c : Char) : Bool :=
  let n := c.toNat
  n == 0x09 || n == 0x0a || n == 0x0d || (0x20 ≤ n && n ≤ 0x7e) || n == 0x85 ||
    (0xa0 ≤ n && n ≤ 0xd7ff) || (0xe000 ≤ n && n ≤ 0xfffd) || 0x10000 ≤ n

/-- The character that stands at the end of a document. -/
def endChar : Char := '\x00'

/-- Whether the character ends a line, once line breaks are brought to one form. -/
def isBreak (c : Char) : Bool := c = '\n' || c = '\u2028' || c = '\u2029'

/-- Whether the character is a space or a tab. -/
def isBlank (c : Char) : Bool := c = ' ' || c = '\t'

/-- Whether the character ends a line or the document. -/
def isBreakOrEnd (c : Char) : Bool := isBreak c || c = endChar

/-- Whether the character separates words. -/
def isSeparator (c : Char) : Bool := isBlank c || isBreakOrEnd c

/-- Whether the character may stand in a name: an ASCII letter, a digit, `_` or `-`. -/
def isNameChar (c : Char) : Bool :=
  ('0' ≤ c && c ≤ '9') || ('a' ≤ c && c ≤ 'z') || ('A' ≤ c && c ≤ 'Z') || c = '_' || c = '-'

/-- Whether the character is a byte order mark. -/
def isMark (c : Char) : Bool := c = '\ufeff'

/-- The characters of a text from a place on. -/
def place : List Char → Nat → Nat → Nat → List Cell
  | [], index, line, column => [⟨endChar, index, line, column⟩]
  | '\r' :: '\n' :: rest, index, line, column =>
    ⟨'\n', index, line, column⟩ :: place rest (index + 2) (line + 1) 0
  | c :: rest, index, line, column =>
    if c = '\r' ∨ c = '\u0085' then
      ⟨'\n', index, line, column⟩ :: place rest (index + c.utf8Size) (line + 1) 0
    else if isBreak c then
      ⟨c, index, line, column⟩ :: place rest (index + c.utf8Size) (line + 1) 0
    else ⟨c, index, line, column⟩ :: place rest (index + c.utf8Size) line (column + 1)

/-- The number of bytes that a portion of a text has at most. -/
def portionSize : Nat := 16384

/-- The characters in front of the first portion with one that is not allowed, and whether
there is such a portion. The portions so far are `done`, latest character first; the one at
hand is `portion` and has `size` bytes. -/
def soundPart : List Char → (done portion : List Char) → (size : Nat) → List Char × Bool
  | [], done, portion, _ => ((portion ++ done).reverse, false)
  | c :: rest, done, portion, size =>
    if !isAllowed c then (done.reverse, true)
    else if portionSize < size + c.utf8Size then
      soundPart rest (portion ++ done) [c] c.utf8Size
    else soundPart rest done (c :: portion) (size + c.utf8Size)

/-- The characters of the sound part of a text, and whether more follow. -/
def ofText (text : String) : List Cell × Bool :=
  let (cs, isCut) := soundPart text.toList [] [] 0
  (place cs 0 0 0, isCut)

end Cell

/-- The characters of a list of cells. -/
def charsOf (cells : List Cell) : List Char := cells.map Cell.char

/-- The character at the start of a list of cells. -/
def headChar : List Cell → Char
  | c :: _ => c.char
  | [] => Cell.endChar

/-- The character after the one at the start of a list of cells. -/
def nextChar : List Cell → Char
  | _ :: rest => headChar rest
  | [] => Cell.endChar

/-- The column of the start of a list of cells. -/
def columnOf : List Cell → Nat
  | c :: _ => c.column
  | [] => 0

/-- What follows the leading cells with a property. -/
def skipWhile (p : Char → Bool) (cells : List Cell) : List Cell :=
  cells.dropWhile fun c => p c.char

/-- The leading characters with a property. -/
def takeChars (p : Char → Bool) (cells : List Cell) : List Char :=
  charsOf (cells.takeWhile fun c => p c.char)

/-- Whether three equal marks that stand by themselves start a line here. -/
def isDocumentMark (mark : Char) : List Cell → Bool
  | a :: b :: c :: rest =>
    a.column = 0 && a.char = mark && b.char = mark && c.char = mark &&
      Cell.isSeparator (headChar rest)
  | _ => false

/-- Whether a document starts or ends here. -/
def atDocumentMark (cells : List Cell) : Bool :=
  isDocumentMark '-' cells || isDocumentMark '.' cells

/-- What follows blanks and a comment. Only a line break or the end may come there. -/
def skipLineRest (cells : List Cell) (fault : Fault) : Except Fault (List Cell) :=
  let cells := skipWhile Cell.isBlank cells
  let cells :=
    if headChar cells = '#' then skipWhile (fun c => !Cell.isBreakOrEnd c) cells else cells
  if Cell.isBreak (headChar cells) then .ok cells.tail
  else if headChar cells = Cell.endChar then .ok cells
  else .error fault

end SborSchema.Yaml
