/-
# Schemas of leaves

One schema for each sort of leaf. Text is handed on as it stands; integers and
instants are read from their decimal text; a byte string has to hold bytes and
comes back in lower case; any tree at all can be kept whole.

Key definitions: `Schema.ofLeaf`, `Schema.textLeaf`, `Schema.bool`, `Schema.string`,
`Schema.number`, `Schema.bytes`, `Schema.decimal`, `Schema.instant`, `Schema.any`.
-/
import SborSchema.Instant
import SborSchema.Integer
import SborSchema.Schema

namespace SborSchema.Schema

variable {α : Type}

/-- Reads the content of a leaf: `read` gives nothing for a leaf of another kind than the
accepted ones, and a cause for content that is not in order. -/
def readLeaf (accepted : KindSet) (read : Leaf → Option (Except Cause α)) (t : Tree) (p : Path) :
    Except ParseError α :=
  match t with
  | .leaf _ content =>
    match read content with
    | some (.ok a) => .ok a
    | some (.error cause) => .error ⟨cause, p⟩
    | none => .error (wrongKind accepted t p)
  | t => .error (wrongKind accepted t p)

/-- A schema that reads the content of leaves; a check drops what is read. -/
def ofLeaf (kinds : KindSet) (read : Leaf → Option (Except Cause α)) : Schema α where
  kinds
  parse := readLeaf kinds read
  validate t p := (readLeaf kinds read t p).map fun _ => ()

/-- A schema of the text that one kind of leaf holds, which `text?` gives; a check only looks at
the kind. -/
def textLeaf (kind : Kind) (text? : Leaf → Option String) : Schema String where
  kinds := .single kind
  validate t p :=
    match t with
    | .leaf _ content =>
      match text? content with
      | some _ => .ok ()
      | none => .error (wrongKind (.single kind) t p)
    | t => .error (wrongKind (.single kind) t p)
  parse := readLeaf (.single kind) fun content => (text? content).map .ok

/-- Truth values. -/
def bool : Schema Bool :=
  ofLeaf (.single .bool) fun
    | .bool b => some (.ok b)
    | _ => none

/-- Texts. -/
def string : Schema String :=
  textLeaf .string fun
    | .string s => some s
    | _ => none

/-- Global addresses. -/
def address : Schema String :=
  textLeaf .reference fun
    | .reference s => some s
    | _ => none

/-- Addresses of owned entities. -/
def internalAddress : Schema String :=
  textLeaf .own fun
    | .own s => some s
    | _ => none

/-- Ids of non-fungible units. -/
def nonFungibleLocalId : Schema String :=
  textLeaf .nonFungibleLocalId fun
    | .nonFungibleLocalId s => some s
    | _ => none

/-- Decimals of both precisions; the text is kept, so no digit is lost. -/
def decimal : Schema String :=
  ofLeaf .decimals fun
    | .decimal s => some (.ok s)
    | .preciseDecimal s => some (.ok s)
    | _ => none

/-- The integer of a leaf. -/
def readNumber : Tree → Path → Except ParseError Integer :=
  readLeaf .integers fun
    | .integer kind text => some (Integer.read kind text)
    | _ => none

/-- Integers of every kind; the refusal of another node names the kinds by itself. -/
def number : Schema Integer where
  kinds := .integers
  validate t p := (readNumber t p).map fun _ => ()
  parse := readNumber

/-- The instant of decimal text that counts seconds. -/
def readInstant (text : String) : Except Cause Instant := do
  let x ← Integer.read .i64 text
  match Instant.ofSeconds? x.value with
  | some t => .ok t
  | none => .error (.outsideCalendar x.value)

/-- Instants, held as signed seconds of 64 bits. -/
def instant : Schema Instant :=
  ofLeaf (.single (.integer .i64)) fun
    | .integer kind text => if kind = .i64 then some (readInstant text) else none
    | _ => none

/-- Checks that a byte string holds bytes in hexadecimal. -/
def checkBytes (t : Tree) (p : Path) : Except ParseError Unit :=
  match t with
  | .leaf _ (.bytes elementKind hex) =>
    if elementKind ≠ .integer .u8 then .error ⟨.notByteElements elementKind, p⟩
    else match Hex.decode hex with
      | .ok _ => .ok ()
      | .error fault => .error ⟨.notHex fault, p⟩
  | t => .error (wrongKind (.single .bytes) t p)

/-- Byte strings; the digits come back in lower case. -/
def bytes : Schema String where
  kinds := .single .bytes
  validate := checkBytes
  parse t p := do
    checkBytes t p
    match t with
    | .leaf _ (.bytes _ hex) => .ok (Hex.lower hex)
    | t => .error (wrongKind (.single .bytes) t p)

/-- Any tree, kept whole. -/
def any : Schema Tree where
  kinds := .all
  validate _ _ := .ok ()
  parse t _ := .ok t

end SborSchema.Schema
