/-
# Reading JSON text

A text is one value with blanks around it. Arrays and objects may nest up to a
given limit. A whole number in the range of 64 bits keeps its value; any other
number, and minus zero, is held in double precision: at most 64 bits of its
digits are taken, and the number they form is scaled by the power of ten, with
a rounding at each of the two steps.

Key definitions: `Json.readValue`, `Json.ofText?`, `Json.ofTextWithin?`,
`Json.nestingLimit`.
-/
import SborSchema.Json

namespace SborSchema.Json

/-- The characters allowed between the parts of a text. -/
def isBlank (c : Char) : Bool := c = ' ' || c = '\n' || c = '\t' || c = '\r'

/-- What follows the blanks at the start. -/
def skipBlank (cs : List Char) : List Char := cs.dropWhile isBlank

/-- The number of a hexadecimal digit. -/
def hexValue? (c : Char) : Option Nat :=
  if '0' ≤ c && c ≤ '9' then some (c.toNat - '0'.toNat)
  else if 'a' ≤ c && c ≤ 'f' then some (c.toNat - 'a'.toNat + 10)
  else if 'A' ≤ c && c ≤ 'F' then some (c.toNat - 'A'.toNat + 10)
  else none

/-- The number of four hexadecimal digits. -/
def hexUnit? (a b c d : Char) : Option Nat := do
  let a ← hexValue? a
  let b ← hexValue? b
  let c ← hexValue? c
  let d ← hexValue? d
  return ((a * 16 + b) * 16 + c) * 16 + d

/-- The character of a short escape. -/
def shortEscape? (c : Char) : Option Char :=
  match c with
  | '"' => some '"'
  | '\\' => some '\\'
  | '/' => some '/'
  | 'b' => some '\x08'
  | 'f' => some '\x0c'
  | 'n' => some '\n'
  | 'r' => some '\r'
  | 't' => some '\t'
  | _ => none

/-- Whether a sixteen bit unit is the first half of a pair. -/
def isHighHalf (n : Nat) : Bool := 0xd800 ≤ n && n < 0xdc00

/-- Whether a sixteen bit unit is the second half of a pair. -/
def isLowHalf (n : Nat) : Bool := 0xdc00 ≤ n && n < 0xe000

/-- The character of a pair of halves. -/
def joinHalves (high low : Nat) : Char :=
  Char.ofNat (0x10000 + (high - 0xd800) * 0x400 + (low - 0xdc00))

/-- Puts a character in front of what was read. -/
def consChar (c : Char) (r : List Char × List Char) : List Char × List Char := (c :: r.1, r.2)

/-- The characters of a string up to its closing quote, and what follows. -/
def readString : List Char → Option (List Char × List Char)
  | '"' :: rest => some ([], rest)
  | '\\' :: 'u' :: a :: b :: c :: d :: rest =>
    match hexUnit? a b c d with
    | none => none
    | some n =>
      if isHighHalf n then
        match rest with
        | '\\' :: 'u' :: e :: f :: g :: h :: rest =>
          match hexUnit? e f g h with
          | none => none
          | some m =>
            if isLowHalf m then (readString rest).map (consChar (joinHalves n m)) else none
        | _ => none
      else if isLowHalf n then none
      else (readString rest).map (consChar (Char.ofNat n))
  | '\\' :: c :: rest =>
    match shortEscape? c with
    | none => none
    | some e => (readString rest).map (consChar e)
  | c :: rest => if c.toNat < 0x20 then none else (readString rest).map (consChar c)
  | [] => none
termination_by structural cs => cs

/-- The greatest number of 64 bits. -/
def greatestWord : Nat := 1 <<< 64 - 1

/-- Takes the digits of a whole part while they fit in 64 bits, and counts the rest. -/
def takeWhole : List Char → Nat → Nat × Int
  | [], n => (n, 0)
  | d :: ds, n =>
    let next := 10 * n + Digits.digitValue d
    if greatestWord < next then (n, (d :: ds).length) else takeWhole ds next

/-- Takes the digits of a fraction while they fit in 64 bits, and drops the rest. -/
def takeFraction : List Char → Nat → Int → Nat × Int
  | [], n, e => (n, e)
  | d :: ds, n, e =>
    let next := 10 * n + Digits.digitValue d
    if greatestWord < next then (n, e) else takeFraction ds next (e - 1)

/-- The double-precision number of the three parts of a written number. -/
def floatOf? (negative : Bool) (whole fraction : List Char) (exponent : Int) :
    Option Number :=
  let w := takeWhole whole 0
  let f := takeFraction fraction w.1 w.2
  ((Binary64.ofRatio negative f.1 1).scaleByTen (f.2 + exponent)).map .float

/-- The number written without fraction and exponent. -/
def wholeOf? (negative : Bool) (whole : List Char) : Option Number :=
  let n := Digits.natValue whole
  if negative then
    if 0 < n ∧ n ≤ 1 <<< 63 then some (.integer (-(n : Int)))
    else floatOf? true whole [] 0
  else if n ≤ greatestWord then some (.integer n)
  else floatOf? false whole [] 0

/-- An exponent after its letter, and what follows. -/
def readExponent? (cs : List Char) : Option (Int × List Char) :=
  let negative := cs.head? = some '-'
  let unsigned := match cs with
    | '+' :: rest => rest
    | '-' :: rest => rest
    | rest => rest
  let ds := unsigned.takeWhile Digits.isDigit
  if ds.isEmpty then none
  else
    let n : Int := Digits.natValue ds
    some (if negative then -n else n, unsigned.dropWhile Digits.isDigit)

/-- The parts of a number after its sign. -/
structure NumberParts where
  whole : List Char
  /-- The digits after the point, if there is one. -/
  fraction : Option (List Char)
  exponent : Option Int
deriving DecidableEq, Repr

/-- The fraction of a number, or nothing, and what follows. -/
def readFraction? : List Char → Option (Option (List Char) × List Char)
  | '.' :: rest =>
    let ds := rest.takeWhile Digits.isDigit
    if ds.isEmpty then none else some (some ds, rest.dropWhile Digits.isDigit)
  | cs => some (none, cs)

/-- What follows the fraction of a number, an exponent or nothing, and what follows that. -/
def readScale? : List Char → Option (Option Int × List Char)
  | c :: rest =>
    if c = 'e' ∨ c = 'E' then (readExponent? rest).map fun r => (some r.1, r.2)
    else some (none, c :: rest)
  | [] => some (none, [])

/-- The parts of a number after its sign, and what follows. -/
def readParts? (cs : List Char) : Option (NumberParts × List Char) := do
  let whole := cs.takeWhile Digits.isDigit
  if whole.isEmpty || (whole.head? == some '0' && whole.length != 1) then none
  else
    let (fraction, rest) ← readFraction? (cs.dropWhile Digits.isDigit)
    let (exponent, rest) ← readScale? rest
    return (⟨whole, fraction, exponent⟩, rest)

/-- The number of its parts. -/
def NumberParts.value? (negative : Bool) (p : NumberParts) : Option Number :=
  if p.fraction.isNone && p.exponent.isNone then wholeOf? negative p.whole
  else floatOf? negative p.whole (p.fraction.getD []) (p.exponent.getD 0)

/-- A number after its sign, and what follows. -/
def readNumber (negative : Bool) (cs : List Char) : Option (Number × List Char) := do
  let (parts, rest) ← readParts? cs
  let n ← parts.value? negative
  return (n, rest)

/-- At most `width` items of an array after its opening bracket, each read by `item`, which
is given its place; the first of them stands at place `i`. -/
def readItems {α : Type} (item : Nat → List Char → Option (α × List Char)) :
    (width i : Nat) → List Char → Option (List α × List Char)
  | 0, _, _ => none
  | width + 1, i, cs => do
    let (x, rest) ← item i cs
    match skipBlank rest with
    | ']' :: rest => return ([x], rest)
    | ',' :: rest =>
      let (xs, rest) ← readItems item width (i + 1) rest
      return (x :: xs, rest)
    | _ => none

/-- At most `width` members of an object after its opening brace, each name read by `name` and
each value by `item`, which is given the name. -/
def readMembers {ν α : Type} (name : List Char → Option (ν × List Char))
    (item : ν → List Char → Option (α × List Char)) :
    (width : Nat) → List Char → Option (List (ν × α) × List Char)
  | 0, _ => none
  | width + 1, cs =>
    match skipBlank cs with
    | '"' :: rest => do
      let (n, rest) ← name rest
      match skipBlank rest with
      | ':' :: rest =>
        let (x, rest) ← item n rest
        match skipBlank rest with
        | '\x7d' :: rest => return ([(n, x)], rest)
        | ',' :: rest =>
          let (xs, rest) ← readMembers name item width rest
          return ((n, x) :: xs, rest)
        | _ => none
      | _ => none
    | _ => none

/-- A string after its opening quote, and what follows. -/
def readText (cs : List Char) : Option (String × List Char) :=
  (readString cs).map fun r => (String.ofList r.1, r.2)

/-- A value that is neither array nor object, and what follows. -/
def readScalar : List Char → Option (Json × List Char)
  | 'n' :: 'u' :: 'l' :: 'l' :: rest => some (.null, rest)
  | 't' :: 'r' :: 'u' :: 'e' :: rest => some (.bool true, rest)
  | 'f' :: 'a' :: 'l' :: 's' :: 'e' :: rest => some (.bool false, rest)
  | '"' :: rest => (readText rest).map fun r => (.string r.1, r.2)
  | '-' :: rest => (readNumber true rest).map fun r => (.number r.1, r.2)
  | cs => (readNumber false cs).map fun r => (.number r.1, r.2)

/-- A value in which arrays and objects nest at most `limit` deep and have at most `width`
parts each, and what follows. -/
def readValue (width : Nat) : (limit : Nat) → List Char → Option (Json × List Char)
  | 0, cs => readScalar (skipBlank cs)
  | limit + 1, cs =>
    match skipBlank cs with
    | '[' :: rest =>
      match skipBlank rest with
      | ']' :: rest => some (.array [], rest)
      | rest => (readItems (fun _ cs => readValue width limit cs) width 0 rest).map fun r =>
        (.array r.1, r.2)
    | '\x7b' :: rest =>
      match skipBlank rest with
      | '\x7d' :: rest => some (.object [], rest)
      | rest =>
        (readMembers readText (fun _ cs => readValue width limit cs) width rest).map fun r =>
          (.object r.1, r.2)
    | cs => readScalar cs

/-- What a reader makes of a whole text. It is given the number of its characters, which no
array or object has more parts than. -/
def readAll? {α : Type} (reader : (width : Nat) → List Char → Option (α × List Char))
    (text : String) : Option α :=
  let cs := text.toList
  match reader cs.length cs with
  | some (value, rest) => if (skipBlank rest).isEmpty then some value else none
  | none => none

/-- The value of a text in which arrays and objects nest at most `limit` deep. -/
def ofTextWithin? (limit : Nat) (text : String) : Option Json :=
  readAll? (fun width cs => readValue width limit cs) text

/-- How deep arrays and objects may nest in a text file. -/
def nestingLimit : Nat := 127

/-- The value of a text of any nesting. -/
def ofText? (text : String) : Option Json := ofTextWithin? text.length text

end SborSchema.Json
