/-
# Plain scalars

What an unquoted scalar stands for is read off its text: null, a truth value,
a whole number in one of four bases, a number with fraction or exponent, or
else the text itself. A sign may precede a number. Several digits that start
with a zero are text. Whole numbers from -2^63 to 2^64 - 1 are held; those
beyond, as far as 128 bits go, are refused, and longer ones become numbers in
double precision.

Key definitions: `Yaml.parseBool?`, `Yaml.parseWord?`, `Yaml.parseFloat?`,
`Yaml.ofPlain`, `Yaml.ofCoreTag`.
-/
import SborSchema.Json.Reader
import SborSchema.Yaml

namespace SborSchema.Yaml

/-- Whether the text is a spelling of null. -/
def isNullText (cs : List Char) : Bool :=
  let s := String.ofList cs
  s = "null" || s = "Null" || s = "NULL" || s = "~"

/-- The truth value of a text. -/
def parseBool? (cs : List Char) : Option Bool :=
  let s := String.ofList cs
  if s = "true" || s = "True" || s = "TRUE" then some true
  else if s = "false" || s = "False" || s = "FALSE" then some false
  else none

/-- Whether the text is two or more digits of which the first is a zero. -/
def isPaddedDigits (cs : List Char) : Bool :=
  let ds := match cs with
    | '-' :: ds => ds
    | '+' :: ds => ds
    | ds => ds
  1 < ds.length && ds.head? == some '0' && ds.all Digits.isDigit

/-- The number of digits of a base. -/
def digitsIn? (base : Nat) (ds : List Char) : Option Nat :=
  if ds.isEmpty then none
  else ds.foldl
    (fun n d => do
      let n ← n
      let v ← Json.hexValue? d
      if v < base then return n * base + v else none)
    (some 0)

/-- The number of digits after an optional sign for their base. -/
def basedDigits? : List Char → Option Nat
  | '0' :: 'x' :: ds => digitsIn? 16 ds
  | '0' :: 'o' :: ds => digitsIn? 8 ds
  | '0' :: 'b' :: ds => digitsIn? 2 ds
  | ds => if isPaddedDigits ds then none else digitsIn? 10 ds

/-- The whole number of a text, of any size. -/
def wholeNumber? : List Char → Option Int
  | '-' :: ds => (basedDigits? ds).map fun n => -(n : Int)
  | '+' :: ds => (basedDigits? ds).map fun n => (n : Int)
  | ds => (basedDigits? ds).map fun n => (n : Int)

/-- Whether a whole number is held as one. -/
def isHeld (n : Int) : Bool := -(1 <<< 63 : Nat) ≤ n && n < (1 <<< 64 : Nat)

/-- Whether a whole number has at most 128 bits. -/
def isWide (n : Int) : Bool := -(1 <<< 127 : Nat) ≤ n && n < (1 <<< 128 : Nat)

/-- A natural number that fits in 64 bits, of a text without a minus sign. -/
def parseWord? (cs : List Char) : Option Nat := do
  let n ← match cs with
    | '-' :: _ => none
    | cs => wholeNumber? cs
  if n < (1 <<< 64 : Nat) then return n.toNat else none

/-- The finite number of digits, an optional fraction and an optional exponent. -/
def parseFinite? (negative : Bool) (cs : List Char) : Option Binary64 := do
  let whole := cs.takeWhile Digits.isDigit
  let rest := cs.dropWhile Digits.isDigit
  let fraction := match rest with
    | '.' :: after => after.takeWhile Digits.isDigit
    | _ => []
  let rest := match rest with
    | '.' :: after => after.dropWhile Digits.isDigit
    | rest => rest
  if whole.isEmpty && fraction.isEmpty then none
  let exponent ← match rest with
    | [] => some 0
    | c :: rest =>
      if c = 'e' ∨ c = 'E' then
        match Json.readExponent? rest with
        | some (e, []) => some e
        | _ => none
      else none
  let x := Binary64.ofDecimal negative (Digits.natValue (whole ++ fraction))
    (exponent - fraction.length)
  if x.isFinite then return x else none

/-- The number in double precision of a text. -/
def parseFloat? (cs : List Char) : Option Binary64 :=
  let negative := cs.head? == some '-'
  let unsigned := match cs with
    | '+' :: rest => rest
    | '-' :: rest => rest
    | rest => rest
  let s := String.ofList unsigned
  if s = ".inf" || s = ".Inf" || s = ".INF" then some (.infinite negative)
  else
    let t := String.ofList cs
    if t = ".nan" || t = ".NaN" || t = ".NAN" then some .nan
    else parseFinite? negative unsigned

/-- The value of an unquoted scalar. -/
def ofPlain (text : String) : Except Fault Yaml :=
  let cs := text.toList
  if cs.isEmpty || isNullText cs then .ok .null
  else match parseBool? cs with
    | some b => .ok (.bool b)
    | none =>
      match (wholeNumber? cs).filter isWide with
      | some n => if isHeld n then .ok (.number (.integer n)) else .error .unreadableScalar
      | none =>
        if isPaddedDigits cs then .ok (.string text)
        else match parseFloat? cs with
          | some x => .ok (.number (.float x))
          | none => .ok (.string text)

/-- The value of a scalar under a tag that is not the document's own. -/
def ofCoreTag (tag text : String) : Except Fault Yaml :=
  let cs := text.toList
  if tag = coreTagLead ++ "bool" then
    match parseBool? cs with
    | some b => .ok (.bool b)
    | none => .error .unreadableScalar
  else if tag = coreTagLead ++ "int" then
    match wholeNumber? cs with
    | some n => if isHeld n then .ok (.number (.integer n)) else .error .unreadableScalar
    | none => .error .unreadableScalar
  else if tag = coreTagLead ++ "float" then
    match parseFloat? cs with
    | some x => .ok (.number (.float x))
    | none => .error .unreadableScalar
  else if tag = coreTagLead ++ "null" then
    if isNullText cs then .ok .null else .error .unreadableScalar
  else .ok (.string text)

end SborSchema.Yaml
