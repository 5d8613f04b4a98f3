/-
# Parsed values

The value that a schema described by data makes of a tree. Records keep their
fields in the order of first insertion. A value becomes JSON without tags: the
type it was parsed with says how to read it. An option is null or its value; if
that is an option itself it is put into an array of one item, so that the two
ways of being empty differ.

Key definitions: `Value`, `Value.recordOf`, `Value.field?`, `Value.toJson`, `Value.text`.
-/
import SborSchema.Instant
import SborSchema.Integer
import SborSchema.Json.Writer
import SborSchema.Tree.Json

namespace SborSchema

/-- A parsed value. -/
inductive Value
  /-- A field of a lenient struct that no child carries. -/
  | missing
  | bool (b : Bool)
  | integer (x : Integer)
  | string (text : String)
  /-- Hexadecimal digits in lower case. -/
  | bytes (hex : String)
  | decimal (text : String)
  | address (text : String)
  | internalAddress (text : String)
  | nonFungibleLocalId (text : String)
  | timestamp (t : Instant)
  | raw (tree : Tree)
  | record (fields : List (String × Value))
  | tuple (items : List Value)
  | array (items : List Value)
  | map (entries : List (Value × Value))
  | enum (variant : String) (payload : Option Value)
  | option (inner : Option Value)
deriving BEq, Repr

namespace Value

/-- Puts a field into a list of fields: in place of one of the same name, else at the end. -/
def putField (name : String) (value : Value) : List (String × Value) → List (String × Value)
  | [] => [(name, value)]
  | (n, v) :: rest => if n = name then (n, value) :: rest else (n, v) :: putField name value rest

/-- The record of a list of fields: a repeated name keeps its first place and last value. -/
def recordOf (fields : List (String × Value)) : Value :=
  record (fields.foldl (fun done f => putField f.1 f.2 done) [])

/-- The field of a record of a given name. -/
def field? (name : String) : Value → Option Value
  | record fields => (fields.find? (·.1 == name)).map (·.2)
  | _ => none

/-- Whether the value stands for an absent field. -/
def isMissing : Value → Bool
  | missing => true
  | _ => false

/-- The text of a value that is text. -/
def text? : Value → Option String
  | string s => some s
  | bytes s => some s
  | decimal s => some s
  | address s => some s
  | internalAddress s => some s
  | nonFungibleLocalId s => some s
  | _ => none

/-- The integer of a value that is one. -/
def integer? : Value → Option Integer
  | integer x => some x
  | _ => none

/-- Whether the value is an option. -/
def isOption : Value → Bool
  | option _ => true
  | _ => false

mutual

/-- A value as JSON. -/
def toJson : Value → Json
  | missing => .null
  | bool b => .bool b
  | integer x => x.toJson
  | string s => .string s
  | bytes s => .string s
  | decimal s => .string s
  | address s => .string s
  | internalAddress s => .string s
  | nonFungibleLocalId s => .string s
  | timestamp t => .string t.shortText
  | raw tree => tree.toJson
  | record fields => .object (jsonFields fields)
  | tuple items => .array (jsonItems items)
  | array items => .array (jsonItems items)
  | map entries => .array (jsonEntries entries)
  | enum variant none => .object [("variant", .string variant)]
  | enum variant (some v) => .object [("variant", .string variant), ("value", v.toJson)]
  | option none => .null
  | option (some v) => if v.isOption then .array [v.toJson] else v.toJson

/-- The fields of a record as JSON. -/
def jsonFields : List (String × Value) → List (String × Json)
  | [] => []
  | (n, v) :: rest => (n, v.toJson) :: jsonFields rest

/-- The values of a list as JSON. -/
def jsonItems : List Value → List Json
  | [] => []
  | v :: vs => v.toJson :: jsonItems vs

/-- The entries of a map as pairs of JSON values. -/
def jsonEntries : List (Value × Value) → List Json
  | [] => []
  | (k, v) :: rest => .array [k.toJson, v.toJson] :: jsonEntries rest

end

mutual

/-- The written form for a reader. -/
def text : Value → String
  | missing => "null"
  | bool true => "true"
  | bool false => "false"
  | integer x => x.text
  | string s => Text.quote s
  | bytes s => "0x" ++ s
  | decimal s => s
  | address s => s
  | internalAddress s => s
  | nonFungibleLocalId s => s
  | timestamp t => t.text
  | raw tree => "<" ++ tree.kind.name ++ ">"
  | record fields => "\x7b" ++ Text.listed (textFields fields) ++ "\x7d"
  | tuple items => "(" ++ Text.listed (textItems items) ++ ")"
  | array items => "[" ++ Text.listed (textItems items) ++ "]"
  | map entries => "\x7b" ++ Text.listed (textEntries entries) ++ "\x7d"
  | enum variant none => variant
  | enum variant (some v) => variant ++ "(" ++ v.text ++ ")"
  | option none => "None"
  | option (some v) => "Some(" ++ v.text ++ ")"

/-- The written forms of the fields of a record. -/
def textFields : List (String × Value) → List String
  | [] => []
  | (n, v) :: rest => (n ++ ": " ++ v.text) :: textFields rest

/-- The written forms of a list of values. -/
def textItems : List Value → List String
  | [] => []
  | v :: vs => v.text :: textItems vs

/-- The written forms of the entries of a map. -/
def textEntries : List (Value × Value) → List String
  | [] => []
  | (k, v) :: rest => (k.text ++ " => " ++ v.text) :: textEntries rest

end

end Value

end SborSchema
