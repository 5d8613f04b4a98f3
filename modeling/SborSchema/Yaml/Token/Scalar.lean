/-
# The text of a scalar

Between two words of a plain or quoted scalar lies a gap. A gap inside a line
is kept; a gap over a line break becomes one space, or the breaks of its empty
lines if it has any. In a block scalar every line is content once its
indentation is taken off: the literal style keeps the line breaks, the folded
style treats one between two lines that start with no blank like a gap.

Key definitions: `Yaml.Gap.text`, `Yaml.readPlain`, `Yaml.readQuoted`, `Yaml.readBlock`.
-/
import SborSchema.Json.Reader
import SborSchema.Yaml.Cell

namespace SborSchema.Yaml

/-- What lies between two words: blanks up to the first line break, and the breaks. -/
structure Gap where
  spaces : List Char
  breaks : List Char
  /-- Whether the first break was escaped and does not count. -/
  escaped : Bool

namespace Gap

/-- Nothing between two characters of a word. -/
def empty : Gap := ⟨[], [], false⟩

/-- The gap that starts with an escaped line break. -/
def afterEscape : Gap := ⟨[], [], true⟩

/-- Whether there is a line break in the gap. -/
def isBroken (g : Gap) : Bool := g.escaped || !g.breaks.isEmpty

/-- The gap with one more blank or line break. -/
def add (g : Gap) (c : Char) : Gap :=
  if Cell.isBreak c then { g with breaks := g.breaks ++ [c] }
  else if g.isBroken then g
  else { g with spaces := g.spaces ++ [c] }

/-- What a gap stands for. -/
def text (g : Gap) : List Char :=
  if g.escaped then g.breaks
  else match g.breaks with
    | [] => g.spaces
    | ['\n'] => [' ']
    | '\n' :: rest => rest
    | breaks => breaks

end Gap

/-- The indicators that bound the entries of a flow collection. -/
def isFlowIndicator (c : Char) : Bool :=
  c = ',' || c = '[' || c = ']' || c = '\x7b' || c = '\x7d'

/-- Whether a plain scalar ends before the character `c`, which `next` follows. -/
def endsPlain (flow : Bool) (c next : Char) : Bool :=
  (c = ':' && Cell.isSeparator next) || (flow && isFlowIndicator c)

/-- Whether a plain scalar ends at a word, seen before its first character. -/
def endsPlainAtWord (flow : Bool) (indent : Int) (cells : List Cell) : Bool :=
  (!flow && (columnOf cells : Int) < indent) || headChar cells = '#' || atDocumentMark cells

/-- The text of a plain scalar, whether a line break follows it, and the rest. The words
of a block have to stand at column `indent` or further. -/
def readPlain (flow : Bool) (indent : Int) :
    Gap → List Cell → Except Fault (List Char × Bool × List Cell)
  | g, [] => .ok ([], g.isBroken, [])
  | g, c :: rest =>
    if Cell.isBlank c.char ∨ Cell.isBreak c.char then
      if g.isBroken ∧ c.char = '\t' ∧ (c.column : Int) < indent then .error .plainScalar
      else readPlain flow indent (g.add c.char) rest
    else if c.char = Cell.endChar then .ok ([], g.isBroken, c :: rest)
    else if (g.isBroken ∨ g.spaces ≠ []) ∧ endsPlainAtWord flow indent (c :: rest) then
      .ok ([], g.isBroken, c :: rest)
    else if flow ∧ c.char = ':' ∧ (headChar rest = '?' ∨ isFlowIndicator (headChar rest)) then
      .error .plainScalar
    else if endsPlain flow c.char (headChar rest) then .ok ([], g.isBroken, c :: rest)
    else do
      let (text, broken, rest) ← readPlain flow indent .empty rest
      return (g.text ++ c.char :: text, broken, rest)

/-- The character of an escape of one letter. -/
def simpleEscape? (c : Char) : Option Char :=
  match c with
  | '0' => some '\x00'
  | 'a' => some '\x07'
  | 'b' => some '\x08'
  | 't' => some '\t'
  | '\t' => some '\t'
  | 'n' => some '\n'
  | 'v' => some '\x0b'
  | 'f' => some '\x0c'
  | 'r' => some '\r'
  | 'e' => some '\x1b'
  | ' ' => some ' '
  | '"' => some '"'
  | '/' => some '/'
  | '\\' => some '\\'
  | 'N' => some '\u0085'
  | '_' => some '\u00a0'
  | 'L' => some '\u2028'
  | 'P' => some '\u2029'
  | _ => none

/-- The number of digits of an escape by number. -/
def escapeLength? (c : Char) : Option Nat :=
  match c with
  | 'x' => some 2
  | 'u' => some 4
  | 'U' => some 8
  | _ => none

/-- The number of a list of hexadecimal digits. -/
def hexNumber? (ds : List Char) : Option Nat :=
  ds.foldl (fun n d => do return (← n) * 16 + (← Json.hexValue? d)) (some 0)

/-- The character of an escape by number with `count` digits. -/
def numberedEscape? (count : Nat) (cells : List Cell) : Option Char := do
  let n ← hexNumber? (charsOf (cells.take count))
  if (0xd800 ≤ n ∧ n ≤ 0xdfff) ∨ 0x10ffff < n ∨ cells.length < count then none
  else return Char.ofNat n

/-- The character of an escape after its backslash, and the rest. -/
def readEscape (cells : List Cell) : Except Fault (Char × List Cell) :=
  let c := headChar cells
  match simpleEscape? c, escapeLength? c with
  | some e, _ => .ok (e, cells.tail)
  | none, some count =>
    match numberedEscape? count cells.tail with
    | some e => .ok (e, cells.tail.drop count)
    | none => .error .quotedScalar
  | none, none => .error .quotedScalar

/-- The text of a quoted scalar after its opening quote, and the rest. -/
def readQuoted (double : Bool) :
    Nat → Gap → List Cell → Except Fault (List Char × List Cell)
  | fuel + 1, g, c :: rest =>
    if Cell.isBlank c.char ∨ Cell.isBreak c.char then readQuoted double fuel (g.add c.char) rest
    else if c.char = Cell.endChar ∨ atDocumentMark (c :: rest) then .error .quotedScalar
    else if !double ∧ c.char = '\'' then
      if headChar rest = '\'' then do
        let (text, rest) ← readQuoted double fuel .empty rest.tail
        return (g.text ++ '\'' :: text, rest)
      else .ok (g.text, rest)
    else if double ∧ c.char = '"' then .ok (g.text, rest)
    else if double ∧ c.char = '\\' then
      if Cell.isBreak (headChar rest) then do
        let (text, rest) ← readQuoted double fuel .afterEscape rest.tail
        return (g.text ++ text, rest)
      else do
        let (e, rest) ← readEscape rest
        let (text, rest) ← readQuoted double fuel .empty rest
        return (g.text ++ e :: text, rest)
    else do
      let (text, rest) ← readQuoted double fuel .empty rest
      return (g.text ++ c.char :: text, rest)
  | _, _, _ => .error .quotedScalar

/-- What is kept of the line breaks at the end of a block scalar. -/
inductive Chomping
  | strip
  | clip
  | keep
deriving DecidableEq, Repr

/-- A line of a block scalar with what follows it: its own break, and those of empty lines. -/
structure BlockLine where
  text : List Char
  ending : List Char
  emptyLines : List Char
deriving DecidableEq, Repr

/-- The indicators after the mark of a block scalar: chomping, extra indentation, and the rest. -/
def readBlockHeader (cells : List Cell) : Except Fault (Chomping × Nat × List Cell) :=
  let chomping? (c : Char) : Option Chomping :=
    if c = '+' then some .keep else if c = '-' then some .strip else none
  let extra? (c : Char) : Option Nat :=
    if Digits.isDigit c then some (Digits.digitValue c) else none
  match chomping? (headChar cells), extra? (headChar cells) with
  | some chomping, _ =>
    match extra? (nextChar cells) with
    | some 0 => .error .blockScalar
    | some extra => .ok (chomping, extra, cells.drop 2)
    | none => .ok (chomping, 0, cells.drop 1)
  | none, some 0 => .error .blockScalar
  | none, some extra =>
    match chomping? (nextChar cells) with
    | some chomping => .ok (chomping, extra, cells.drop 2)
    | none => .ok (.clip, extra, cells.drop 1)
  | none, none => .ok (.clip, 0, cells)

/-- The breaks of empty lines, the greatest column on the way, and the rest. Indentation
reaches to column `indent`, or as far as it goes when that is zero. -/
def readEmptyLines (indent : Nat) :
    Nat → List Cell → Except Fault (List Char × Nat × List Cell)
  | widest, [] => .ok ([], widest, [])
  | widest, c :: rest =>
    let inside := indent = 0 ∨ c.column < indent
    if inside ∧ c.char = ' ' then readEmptyLines indent widest rest
    else if inside ∧ c.char = '\t' then .error .blockScalar
    else if Cell.isBreak c.char then do
      let (breaks, widest, rest) ← readEmptyLines indent (max widest c.column) rest
      return (c.char :: breaks, widest, rest)
    else .ok ([], max widest c.column, c :: rest)

/-- The lines of a block scalar with indentation `indent`, and the rest. -/
def readBlockLines (indent : Nat) :
    Nat → List Cell → Except Fault (List BlockLine × List Cell)
  | 0, cells => .ok ([], cells)
  | fuel + 1, cells =>
    if columnOf cells = indent ∧ headChar cells ≠ Cell.endChar then do
      let text := takeChars (fun c => !Cell.isBreakOrEnd c) cells
      let rest := skipWhile (fun c => !Cell.isBreakOrEnd c) cells
      let hasBreak := Cell.isBreak (headChar rest)
      let ending := if hasBreak then [headChar rest] else []
      let rest := if hasBreak then rest.tail else rest
      let (emptyLines, _, rest) ← readEmptyLines indent 0 rest
      let (lines, rest) ← readBlockLines indent fuel rest
      return (⟨text, ending, emptyLines⟩ :: lines, rest)
    else .ok ([], cells)

/-- Whether a line starts with a blank. -/
def BlockLine.isIndented (l : BlockLine) : Bool := l.text.head?.any Cell.isBlank

/-- What stands between a line and the next one. -/
def BlockLine.joint (folded : Bool) (l next : BlockLine) : List Char :=
  if folded && l.ending = ['\n'] && !l.isIndented && !next.isIndented then
    if l.emptyLines.isEmpty then [' '] else l.emptyLines
  else l.ending ++ l.emptyLines

/-- The text of the lines of a block scalar. -/
def blockText (folded : Bool) (chomping : Chomping) : List BlockLine → List Char
  | [] => []
  | [l] =>
    l.text ++
      match chomping with
      | .strip => []
      | .clip => l.ending
      | .keep => l.ending ++ l.emptyLines
  | l :: next :: lines => l.text ++ l.joint folded next ++ blockText folded chomping (next :: lines)

/-- The text of a block scalar after its mark, in a block at column `outer`, and the rest. -/
def readBlock (folded : Bool) (outer : Int) (cells : List Cell) :
    Except Fault (List Char × List Cell) := do
  let (chomping, extra, rest) ← readBlockHeader cells
  let rest ← skipLineRest rest .blockScalar
  let given := if extra = 0 then 0 else outer.toNat + extra
  let (emptyLines, widest, rest) ← readEmptyLines given 0 rest
  let indent := if given = 0 then max (max widest (outer + 1).toNat) 1 else given
  let (lines, rest) ← readBlockLines indent rest.length rest
  if lines.isEmpty && chomping != .keep then return ([], rest)
  else return (emptyLines ++ blockText folded chomping lines, rest)

end SborSchema.Yaml
