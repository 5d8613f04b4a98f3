/-
# YAML values

A YAML document stands for a value: null, a truth value, a number, a text, a
sequence, a mapping, or one of these under a local tag. Keys of a mapping may
be any values, in document order, and no two are the same.

Key definitions: `Yaml`, `Yaml.Fault`, `Yaml.same`, `Yaml.untagged`, `Yaml.reread`,
`Yaml.text?`, `Yaml.get?`, `Yaml.debugText`.
-/
import SborSchema.Number
import SborSchema.Text.Listed
import SborSchema.Text.Quoted

namespace SborSchema

/-- A YAML value. -/
inductive Yaml
  | null
  | bool (b : Bool)
  | number (n : Number)
  | string (s : String)
  | sequence (items : List Yaml)
  | mapping (entries : List (Yaml × Yaml))
  | tagged (tag : String) (content : Yaml)
deriving Repr

namespace Yaml

/-- Why a text is not YAML that can be read. -/
inductive Fault
  | character
  | directive
  | anchor
  | tag
  | blockScalar
  | quotedScalar
  | plainScalar
  | simpleKey
  | misplacedIndicator
  | noToken
  | unexpectedToken
  | unknownAlias
  | nesting
  | repetition
  | duplicateKey
  | unreadableScalar
  | severalDocuments
  | content
deriving DecidableEq, Repr

/-- The wording of a fault. -/
def Fault.message : Fault → String
  | character => "control characters are not allowed"
  | directive => "found an unknown or malformed directive"
  | anchor => "found a malformed anchor or alias"
  | tag => "found a malformed tag or an undefined tag handle"
  | blockScalar => "found a malformed block scalar"
  | quotedScalar => "found a malformed quoted scalar"
  | plainScalar => "found a malformed plain scalar"
  | simpleKey => "could not find expected ':'"
  | misplacedIndicator => "an indicator is not allowed in this context"
  | noToken => "found character that cannot start any token"
  | unexpectedToken => "did not find expected node content"
  | unknownAlias => "unknown anchor"
  | nesting => "recursion limit exceeded"
  | repetition => "repetition limit exceeded"
  | duplicateKey => "duplicate entry in a mapping"
  | unreadableScalar => "a scalar does not fit its tag or its range"
  | severalDocuments => "deserializing from YAML containing more than one document is not supported"
  | content => "the content is not of the expected shape"

/-- The name in front of the tags of the core types. -/
def coreTagLead : String := "tag:yaml.org,2002:"

/-- The name of a tag without the mark in front of it, unless it is the mark itself. -/
def bareTagName (name : String) : String :=
  match name.toList with
  | '!' :: c :: rest => String.ofList (c :: rest)
  | _ => name

/-- Whether two finite or infinite numbers have the same size and, unless zero, sign. -/
def sameFloat (x y : Binary64) : Bool :=
  x = y || (x.isZero && y.isZero)

/-- Whether two numbers are the same key. -/
def sameNumber : Number → Number → Bool
  | .integer a, .integer b => a = b
  | .float a, .float b => sameFloat a b
  | _, _ => false

mutual

/-- Whether two values are the same key; the order of a mapping does not matter. -/
def same : Yaml → Yaml → Bool
  | null, null => true
  | bool a, bool b => a = b
  | number a, number b => sameNumber a b
  | string a, string b => a = b
  | sequence a, sequence b => sameItems a b
  | mapping a, mapping b => a.length = b.length && includedIn a b
  | tagged s a, tagged t b => s = t && same a b
  | _, _ => false

/-- Whether two lists of values are the same item by item. -/
def sameItems : List Yaml → List Yaml → Bool
  | [], [] => true
  | a :: as, b :: bs => same a b && sameItems as bs
  | _, _ => false

/-- Whether every entry of the first list occurs in the second. -/
def includedIn : List (Yaml × Yaml) → List (Yaml × Yaml) → Bool
  | [], _ => true
  | (k, v) :: rest, entries =>
    (entries.any fun e => same k e.1 && same v e.2) && includedIn rest entries

end

/-- The value below all local tags. -/
def untagged : Yaml → Yaml
  | tagged _ content => untagged content
  | value => value

/-- Whether a key is among the keys of entries. -/
def hasKey (key : Yaml) (entries : List (Yaml × Yaml)) : Bool :=
  entries.any fun e => e.1.same key

mutual

/-- The value read once more: a mark in front of the name of a tag is dropped. That may
make two keys the same, which is a fault. -/
def reread : Yaml → Except Fault Yaml
  | sequence items => (rereadItems items).map sequence
  | mapping entries => (rereadEntries entries []).map mapping
  | tagged tag content => content.reread.map (tagged (bareTagName tag))
  | other => .ok other

/-- The items of a sequence read once more. -/
def rereadItems : List Yaml → Except Fault (List Yaml)
  | [] => .ok []
  | item :: items => do
    let y ← item.reread
    let ys ← rereadItems items
    return y :: ys

/-- The entries of a mapping read once more, after those in `done`. -/
def rereadEntries : List (Yaml × Yaml) → List (Yaml × Yaml) → Except Fault (List (Yaml × Yaml))
  | [], done => .ok done.reverse
  | (k, v) :: rest, done => do
    let key ← k.reread
    if hasKey key done then .error .duplicateKey
    else
      let value ← v.reread
      rereadEntries rest ((key, value) :: done)

end

/-- The text of a value that is text, below its tags. -/
def text? (y : Yaml) : Option String :=
  match y.untagged with
  | string s => some s
  | _ => none

/-- Whether the value is null, below its tags. -/
def isNull (y : Yaml) : Bool :=
  match y.untagged with
  | null => true
  | _ => false

/-- Whether the value is the given text itself. -/
def isText (name : String) : Yaml → Bool
  | string s => s = name
  | _ => false

/-- The value at a text key of a mapping, below its tags. -/
def get? (name : String) (y : Yaml) : Option Yaml :=
  match y.untagged with
  | mapping entries => (entries.find? fun e => e.1.isText name).map (·.2)
  | _ => none

mutual

/-- The written form of a value inside a message. -/
def debugText : Yaml → String
  | null => "Null"
  | bool true => "Bool(true)"
  | bool false => "Bool(false)"
  | number n => "Number(" ++ n.text .negativeOnly ++ ")"
  | string s => "String(" ++ Text.quote s ++ ")"
  | sequence items => "Sequence [" ++ Text.listed (itemTexts items) ++ "]"
  | mapping entries => "Mapping \x7b" ++ Text.listed (entryTexts entries) ++ "\x7d"
  | tagged tag content =>
    "TaggedValue \x7b tag: !" ++ tag ++ ", value: " ++ content.debugText ++ " \x7d"

/-- The written forms of the items of a sequence. -/
def itemTexts : List Yaml → List String
  | [] => []
  | item :: items => item.debugText :: itemTexts items

/-- The written forms of the entries of a mapping. -/
def entryTexts : List (Yaml × Yaml) → List String
  | [] => []
  | (k, v) :: rest => (k.keyText ++ ": " ++ v.debugText) :: entryTexts rest

/-- The written form of a key: simple ones go without the name of their case. -/
def keyText : Yaml → String
  | bool true => "true"
  | bool false => "false"
  | number n => n.text .negativeOnly
  | string s => Text.quote s
  | null => "Null"
  | sequence items => "Sequence [" ++ Text.listed (itemTexts items) ++ "]"
  | mapping entries => "Mapping \x7b" ++ Text.listed (entryTexts entries) ++ "\x7d"
  | tagged tag content =>
    "TaggedValue \x7b tag: !" ++ tag ++ ", value: " ++ content.debugText ++ " \x7d"

end

end Yaml

end SborSchema
