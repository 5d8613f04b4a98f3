/-
# Names of anchors, tags and directives

An anchor or alias is a name after its mark. A tag is a handle and a suffix: the
suffix is written in the characters of a resource identifier, in which a
percent sign and two hexadecimal digits stand for a byte. The bytes after a
leading one have to be there, but need not make up a character; what follows a
NUL is dropped. A directive is a line that gives the version, or what a handle
stands for.

Key definitions: `Yaml.readAnchor`, `Yaml.readTag`, `Yaml.readDirective`.
-/
import SborSchema.Yaml.Token
import SborSchema.Yaml.Token.Scalar

namespace SborSchema.Yaml

/-- Whether the character may follow the name of an anchor. -/
def endsAnchor (c : Char) : Bool :=
  Cell.isSeparator c || c = '?' || c = ':' || c = ',' || c = ']' || c = '\x7d' || c = '%' ||
    c = '@' || c = '\x60'

/-- The name of an anchor or alias after its mark, and the rest. -/
def readAnchor (cells : List Cell) : Except Fault (String × List Cell) :=
  let name := takeChars Cell.isNameChar cells
  let rest := skipWhile Cell.isNameChar cells
  if name.isEmpty || !endsAnchor (headChar rest) then .error .anchor
  else .ok (String.ofList name, rest)

/-- Whether the character may stand in a resource identifier. -/
def isUriChar (c : Char) : Bool :=
  Cell.isNameChar c || ";/?:@&=+$.%!~*'()".toList.contains c

/-- Whether the character may stand in a resource identifier between brackets. -/
def isBracketedUriChar (c : Char) : Bool :=
  isUriChar c || c = ',' || c = '[' || c = ']'

/-- The number of bytes that follow a byte at the start of a character. -/
def followingBytes? (lead : Nat) : Option Nat :=
  if lead < 0x80 then some 0
  else if 0xc0 ≤ lead ∧ lead < 0xe0 then some 1
  else if 0xe0 ≤ lead ∧ lead < 0xf0 then some 2
  else if 0xf0 ≤ lead ∧ lead < 0xf8 then some 3
  else none

/-- Whether a byte continues a character. -/
def continues (n : Nat) : Bool := 0x80 ≤ n && n < 0xc0

/-- The bytes of a resource identifier, of which the first `due` continue a character. -/
def uriBytes? : (due : Nat) → List Char → Option (List UInt8)
  | due, '%' :: a :: b :: rest => do
    let n ← hexNumber? [a, b]
    let due ← match due with
      | 0 => followingBytes? n
      | due + 1 => if continues n then some due else none
    let bytes ← uriBytes? due rest
    return n.toUInt8 :: bytes
  | _, '%' :: _ => none
  | 0, c :: rest => (uriBytes? 0 rest).map (c.toNat.toUInt8 :: ·)
  | 0, [] => some []
  | _ + 1, _ => none

/-- The bytes in front of the first NUL. -/
def beforeNul (bytes : List UInt8) : List UInt8 := bytes.takeWhile (· ≠ 0)

/-- A resource identifier, which may be empty, and the rest. -/
def readUri (allowed : Char → Bool) (cells : List Cell) : Except Fault (List UInt8 × List Cell) :=
  match uriBytes? 0 (takeChars allowed cells) with
  | some bytes => .ok (bytes, skipWhile allowed cells)
  | none => .error .tag

/-- A resource identifier that is not empty, up to its first NUL, and the rest. -/
def readFullUri (allowed : Char → Bool) (fault : Fault) (cells : List Cell) :
    Except Fault (List UInt8 × List Cell) := do
  let (bytes, rest) ← readUri allowed cells
  if bytes.isEmpty then .error fault else return (beforeNul bytes, rest)

/-- The handle at the start of a tag: `!`, or a name between two of them. -/
def readHandle? (cells : List Cell) : Option (String × List Cell) :=
  if headChar cells = '!' then
    let name := takeChars Cell.isNameChar cells.tail
    let rest := skipWhile Cell.isNameChar cells.tail
    if headChar rest = '!' then some (String.ofList ('!' :: name ++ ['!']), rest.tail)
    else none
  else none

/-- A tag after its mark `!<`, and the rest. -/
def readVerbatimTag (cells : List Cell) : Except Fault (List UInt8 × List Cell) := do
  let (uri, rest) ← readFullUri isBracketedUriChar .tag cells
  if headChar rest ≠ '>' then .error .tag else return (uri, rest.tail)

/-- The handle and the suffix of a tag, and the rest. A lone mark is a suffix. -/
def readTagParts (cells : List Cell) : Except Fault (String × List UInt8 × List Cell) := do
  if nextChar cells = '<' then
    let (uri, rest) ← readVerbatimTag (cells.drop 2)
    return ("", uri, rest)
  else match readHandle? cells with
    | some (handle, rest) =>
      let (suffix, rest) ← readFullUri isUriChar .tag rest
      return (handle, suffix, rest)
    | none =>
      let (bytes, rest) ← readUri isUriChar cells.tail
      let suffix := beforeNul bytes
      if suffix.isEmpty then return ("", "!".toUTF8.toList, rest) else return ("!", suffix, rest)

/-- The token of a tag, and the rest. -/
def readTag (flow : Bool) (cells : List Cell) : Except Fault (Token × List Cell) := do
  let (handle, suffix, rest) ← readTagParts cells
  if Cell.isSeparator (headChar rest) || (flow && headChar rest = ',') then
    return (.tag handle suffix, rest)
  else .error .tag

/-- A number of at most nine digits, and the rest. -/
def readShortNumber (cells : List Cell) : Except Fault (Nat × List Cell) :=
  let ds := takeChars Digits.isDigit cells
  if ds.isEmpty || 9 < ds.length then .error .directive
  else .ok (Digits.natValue ds, skipWhile Digits.isDigit cells)

/-- The version after the name of its directive, and the rest. -/
def readVersion (cells : List Cell) : Except Fault (Token × List Cell) := do
  let (major, rest) ← readShortNumber (skipWhile Cell.isBlank cells)
  if headChar rest ≠ '.' then .error .directive
  let (minor, rest) ← readShortNumber rest.tail
  return (.versionDirective major minor, rest)

/-- The handle and what it stands for after the name of their directive, and the rest. -/
def readTagDirective (cells : List Cell) : Except Fault (Token × List Cell) := do
  let cells := skipWhile Cell.isBlank cells
  let (handle, rest) ← match readHandle? cells with
    | some found => .ok found
    | none =>
      if headChar cells = '!' ∧ !Cell.isNameChar (nextChar cells) then .ok ("!", cells.tail)
      else .error .directive
  if !Cell.isBlank (headChar rest) then .error .directive
  let (lead, rest) ← readFullUri isBracketedUriChar .directive (skipWhile Cell.isBlank rest)
  if !Cell.isSeparator (headChar rest) then .error .directive
  return (.tagDirective handle lead, rest)

/-- The token of a directive after its percent sign, and what follows its line. -/
def readDirective (cells : List Cell) : Except Fault (Token × List Cell) := do
  let name := String.ofList (takeChars Cell.isNameChar cells)
  let rest := skipWhile Cell.isNameChar cells
  if !Cell.isSeparator (headChar rest) then .error .directive
  let (token, rest) ←
    if name = "YAML" then readVersion rest
    else if name = "TAG" then readTagDirective rest
    else .error .directive
  let rest ← skipLineRest rest .directive
  return (token, rest)

end SborSchema.Yaml
