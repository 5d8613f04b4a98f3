/-
# From characters to tokens

Tokens are read one after the other. Indentation is kept as a stack of columns:
a token further left closes blocks, an entry or a key further right opens one.
That a scalar is a key shows only when its colon is found, so the place of the
last token that may turn out to be a key is remembered on each level of flow
collections, and the tokens that make it one are put in afterwards. A possible
key ends with its line, or after 1024 bytes.

Key definitions: `Yaml.Reading`, `Yaml.Reading.step`, `Yaml.tokensOf`.
-/
import SborSchema.Yaml.Token.Name

namespace SborSchema.Yaml

/-- A token that may turn out to be a key. -/
structure PossibleKey where
  /-- Whether nothing but a key can stand here. -/
  required : Bool
  /-- The number of tokens before it. -/
  position : Nat
  index : Nat
  line : Nat
  column : Nat
deriving DecidableEq, Repr

/-- How far the tokens of a document have been read. -/
structure Reading where
  rest : List Cell
  /-- The tokens so far, latest first. -/
  tokens : List Token
  /-- The column of the innermost block, before any block -1. -/
  indent : Int
  /-- The columns of the blocks around it. -/
  outerIndents : List Int
  /-- Whether a key may start here. -/
  keyAllowed : Bool
  /-- The possible key of the innermost flow collection. -/
  key : Option PossibleKey
  /-- The possible keys of what is around it. -/
  outerKeys : List (Option PossibleKey)

namespace Reading

/-- The start of a document. -/
def start (cells : List Cell) : Reading :=
  { rest := cells, tokens := [], indent := -1, outerIndents := [], keyAllowed := true
    key := none, outerKeys := [] }

/-- Whether a flow collection is open. -/
def inFlow (r : Reading) : Bool := !r.outerKeys.isEmpty

/-- The number of tokens so far. -/
def count (r : Reading) : Nat := r.tokens.length

/-- The column of the next character. -/
def column (r : Reading) : Int := columnOf r.rest

/-- Adds a token and goes on after it. -/
def emit (r : Reading) (t : Token) (rest : List Cell) : Reading :=
  { r with tokens := t :: r.tokens, rest }

/-- Puts a token in after the first `position` tokens. -/
def insertToken (r : Reading) (position : Nat) (t : Token) : Reading :=
  { r with tokens := r.tokens.insertIdx (r.count - position) t }

/-- Skips blanks, comments and line breaks, and a byte order mark at the start of a line.
Where a key may start, tabs are no blanks; a line break outside flow collections lets a key
start. -/
def skipBlanks (flow : Bool) : List Cell → Bool → Bool → List Cell × Bool
  | [], _, keyAllowed => ([], keyAllowed)
  | c :: rest, inComment, keyAllowed =>
    if Cell.isBreak c.char then skipBlanks flow rest false (keyAllowed || !flow)
    else if inComment ∧ c.char ≠ Cell.endChar then skipBlanks flow rest true keyAllowed
    else if c.char = ' ' ∨ (c.char = '\t' ∧ (flow ∨ !keyAllowed)) ∨
        (Cell.isMark c.char ∧ c.column = 0) then
      skipBlanks flow rest false keyAllowed
    else if c.char = '#' then skipBlanks flow rest true keyAllowed
    else (c :: rest, keyAllowed)

/-- Whether a possible key is too far back to become one. -/
def isStale (cells : List Cell) (k : PossibleKey) : Bool :=
  match cells with
  | c :: _ => k.line < c.line || k.index + 1024 < c.index
  | [] => true

/-- Gives up a possible key that is too far back; a required one is missing its colon. -/
def dropStale (cells : List Cell) : Option PossibleKey → Except Fault (Option PossibleKey)
  | some k =>
    if isStale cells k then if k.required then .error .simpleKey else .ok none
    else .ok (some k)
  | none => .ok none

/-- Gives up the possible key of the innermost level. -/
def removeKey (r : Reading) : Except Fault Reading :=
  match r.key with
  | some k => if k.required then .error .simpleKey else .ok { r with key := none }
  | none => .ok r

/-- Remembers that the next token may be a key. -/
def saveKey (r : Reading) : Except Fault Reading :=
  match r.keyAllowed, r.rest with
  | true, c :: _ => do
    let r ← r.removeKey
    let required := !r.inFlow && r.indent == r.column
    return { r with key := some ⟨required, r.count, c.index, c.line, c.column⟩ }
  | _, _ => .ok r

/-- Closes the blocks that start to the right of a column: the tokens, the column of the
innermost block that stays open, and those around it. -/
def closeBlocks (column : Int) : List Token → Int → List Int → List Token × Int × List Int
  | tokens, indent, outer :: rest =>
    if column < indent then closeBlocks column (.blockEnd :: tokens) outer rest
    else (tokens, indent, outer :: rest)
  | tokens, indent, [] => (tokens, indent, [])

/-- Closes the blocks that start to the right of a column. -/
def unindent (r : Reading) (column : Int) : Reading :=
  if r.inFlow then r
  else
    let (tokens, indent, outerIndents) := closeBlocks column r.tokens r.indent r.outerIndents
    { r with tokens, indent, outerIndents }

/-- Opens a block at a column, with its token after the first `position` tokens, unless one
is open there. -/
def openBlock (r : Reading) (column : Int) (position : Nat) (t : Token) : Reading :=
  if !r.inFlow && r.indent < column then
    { r.insertToken position t with indent := column, outerIndents := r.indent :: r.outerIndents }
  else r

/-- Opens a block where an indicator stands at the start of its line. -/
def openBlockHere (r : Reading) (t : Token) : Except Fault Reading :=
  if r.inFlow then .ok r
  else if r.keyAllowed then .ok (r.openBlock r.column r.count t)
  else .error .misplacedIndicator

/-- Adds the token of an indicator of one character. -/
def emitIndicator (r : Reading) (t : Token) : Reading := r.emit t r.rest.tail

/-- The end of the stream. -/
def readEnd (r : Reading) : Except Fault Reading := do
  let r ← (r.unindent (-1)).removeKey
  return { r.emit .streamEnd [] with keyAllowed := false }

/-- A directive. -/
def readDirectiveLine (r : Reading) : Except Fault Reading := do
  let r ← (r.unindent (-1)).removeKey
  let (t, rest) ← readDirective r.rest.tail
  return { r.emit t rest with keyAllowed := false }

/-- The mark of a start or an end of a document. -/
def readDocumentMark (r : Reading) (t : Token) : Except Fault Reading := do
  let r ← (r.unindent (-1)).removeKey
  return { r.emit t (r.rest.drop 3) with keyAllowed := false }

/-- The opening bracket of a flow collection. -/
def readFlowStart (r : Reading) (t : Token) : Except Fault Reading := do
  let r ← r.saveKey
  return { r.emitIndicator t with
    keyAllowed := true, key := none, outerKeys := r.key :: r.outerKeys }

/-- The closing bracket of a flow collection. -/
def readFlowEnd (r : Reading) (t : Token) : Except Fault Reading := do
  let r ← r.removeKey
  let r := { r.emitIndicator t with keyAllowed := false }
  match r.outerKeys with
  | key :: outerKeys => return { r with key, outerKeys }
  | [] => return r

/-- The comma between entries of a flow collection. -/
def readFlowEntry (r : Reading) : Except Fault Reading := do
  let r ← r.removeKey
  return { r.emitIndicator .flowEntry with keyAllowed := true }

/-- The dash of an entry of a block sequence. -/
def readBlockEntry (r : Reading) : Except Fault Reading := do
  let r ← r.openBlockHere .blockSequenceStart
  let r ← r.removeKey
  return { r.emitIndicator .blockEntry with keyAllowed := true }

/-- The question mark of a key. -/
def readKey (r : Reading) : Except Fault Reading := do
  let r ← r.openBlockHere .blockMappingStart
  let r ← r.removeKey
  return { r.emitIndicator .key with keyAllowed := !r.inFlow }

/-- The colon of a value: what may have been a key is one. -/
def readValue (r : Reading) : Except Fault Reading := do
  match r.key with
  | some k =>
    let r := r.insertToken k.position .key
    let r := r.openBlock k.column k.position .blockMappingStart
    return { r.emitIndicator .value with key := none, keyAllowed := false }
  | none =>
    let r ← r.openBlockHere .blockMappingStart
    return { r.emitIndicator .value with keyAllowed := !r.inFlow }

/-- An anchor or an alias. -/
def readMention (r : Reading) (token : String → Token) : Except Fault Reading := do
  let r ← r.saveKey
  let (name, rest) ← readAnchor r.rest.tail
  return { r.emit (token name) rest with keyAllowed := false }

/-- A tag. -/
def readTagToken (r : Reading) : Except Fault Reading := do
  let r ← r.saveKey
  let (t, rest) ← readTag r.inFlow r.rest
  return { r.emit t rest with keyAllowed := false }

/-- A block scalar. -/
def readBlockScalar (r : Reading) (style : ScalarStyle) : Except Fault Reading := do
  let r ← r.removeKey
  let (text, rest) ← readBlock (style = .folded) r.indent r.rest.tail
  return { r.emit (.scalar (String.ofList text) style) rest with keyAllowed := true }

/-- A quoted scalar. -/
def readQuotedScalar (r : Reading) (style : ScalarStyle) : Except Fault Reading := do
  let r ← r.saveKey
  let (text, rest) ← readQuoted (style = .doubleQuoted) r.rest.length .empty r.rest.tail
  return { r.emit (.scalar (String.ofList text) style) rest with keyAllowed := false }

/-- A plain scalar; a key may start after one that ends with its line. -/
def readPlainScalar (r : Reading) : Except Fault Reading := do
  let r ← r.saveKey
  let (text, broken, rest) ← readPlain r.inFlow (r.indent + 1) .empty r.rest
  return { r.emit (.scalar (String.ofList text) .plain) rest with keyAllowed := broken }

/-- Whether the character has a meaning of its own at the start of a token. -/
def isIndicator (c : Char) : Bool := "-?:,[]\x7b\x7d#&*!|>'\"%@\x60".toList.contains c

/-- Whether a plain scalar starts with the character `c`, which `next` follows. -/
def startsPlain (flow : Bool) (c next : Char) : Bool :=
  !(Cell.isSeparator c || isIndicator c) ||
    (c = '-' && !Cell.isBlank next) ||
    (!flow && (c = '?' || c = ':') && !Cell.isSeparator next)

/-- The next token, where there are no blanks in front of it. -/
def readToken (r : Reading) : Except Fault Reading :=
  let c := headChar r.rest
  let bounded := Cell.isSeparator (nextChar r.rest)
  if c = Cell.endChar then r.readEnd
  else if c = '%' ∧ r.column = 0 then r.readDirectiveLine
  else if isDocumentMark '-' r.rest then r.readDocumentMark .documentStart
  else if isDocumentMark '.' r.rest then r.readDocumentMark .documentEnd
  else if c = '[' then r.readFlowStart .flowSequenceStart
  else if c = '\x7b' then r.readFlowStart .flowMappingStart
  else if c = ']' then r.readFlowEnd .flowSequenceEnd
  else if c = '\x7d' then r.readFlowEnd .flowMappingEnd
  else if c = ',' then r.readFlowEntry
  else if c = '-' ∧ bounded then r.readBlockEntry
  else if c = '?' ∧ (r.inFlow ∨ bounded) then r.readKey
  else if c = ':' ∧ (r.inFlow ∨ bounded) then r.readValue
  else if c = '*' then r.readMention .reference
  else if c = '&' then r.readMention .anchor
  else if c = '!' then r.readTagToken
  else if c = '|' ∧ !r.inFlow then r.readBlockScalar .literal
  else if c = '>' ∧ !r.inFlow then r.readBlockScalar .folded
  else if c = '\'' then r.readQuotedScalar .singleQuoted
  else if c = '"' then r.readQuotedScalar .doubleQuoted
  else if startsPlain r.inFlow c (nextChar r.rest) then r.readPlainScalar
  else .error .noToken

/-- The next token, after what stands in front of it. -/
def step (r : Reading) : Except Fault Reading := do
  let (rest, keyAllowed) := skipBlanks r.inFlow r.rest false r.keyAllowed
  let key ← dropStale rest r.key
  let outerKeys ← r.outerKeys.mapM (dropStale rest)
  let r := { r with rest, keyAllowed, key, outerKeys }
  (r.unindent r.column).readToken

/-- The number of tokens that no possible key stands in front of. A key that is too far back
is none, unless it is required. -/
def settled (r : Reading) : Nat :=
  (r.key :: r.outerKeys).foldl
    (fun n k =>
      match k with
      | some k => if isStale r.rest k && !k.required then n else min n k.position
      | none => n)
    r.count

/-- The tokens before a fault: those that may still turn out to be keys are not among them. -/
def cutAt (r : Reading) (f : Fault) : List Token :=
  (r.tokens.drop (r.count - r.settled)).reverse ++ [.broken f]

/-- How many characters have to follow a token of a text that is cut. -/
def lookahead : Nat := 4

/-- Whether the next characters of a text that is cut are not known. -/
def isAtCut (r : Reading) : Bool := r.rest.length ≤ lookahead

/-- The tokens of a document, read in at most `fuel` steps. Where the text is cut, no token
comes from the characters next to the cut. -/
def run (isCut : Bool) : Nat → Reading → List Token
  | 0, r => r.cutAt .noToken
  | fuel + 1, r =>
    if r.rest.isEmpty then r.tokens.reverse
    else match r.step with
      | .ok next => if isCut && next.isAtCut then r.cutAt .character else run isCut fuel next
      | .error f => r.cutAt f

end Reading

/-- The tokens of a text. -/
def tokensOf (text : String) : List Token :=
  let (cells, isCut) := Cell.ofText text
  Reading.run isCut (cells.length + 1) (Reading.start cells)

end SborSchema.Yaml
