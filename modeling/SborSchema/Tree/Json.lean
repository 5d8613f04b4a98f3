/-
# Value trees as JSON

A node is an object: its labels if it has them, its kind, and the members of
that kind. Reading is more lenient than writing: a label may be null, the kind
may be given by its number, the kinds of elements as a variant without
content, an entry of a map as a pair, and the number of a variant as a number.
Other members are ignored, but a member that is read may not be repeated.

Key definitions: `Tree.toJson`, `Tree.ofJson?`, `Tree.ofText?`.
-/
import SborSchema.Json.Decode
import SborSchema.Json.Reader
import SborSchema.Tree

namespace SborSchema

/-- The members of a leaf after its kind. -/
def Leaf.members : Leaf → List (String × Json)
  | bool b => [("value", .bool b)]
  | integer _ text => [("value", .string text)]
  | string text => [("value", .string text)]
  | bytes elementKind hex => [("element_kind", .string elementKind.name), ("hex", .string hex)]
  | decimal text => [("value", .string text)]
  | preciseDecimal text => [("value", .string text)]
  | reference text => [("value", .string text)]
  | own text => [("value", .string text)]
  | nonFungibleLocalId text => [("value", .string text)]

/-- The members of the labels that are present. -/
def Labels.members (l : Labels) : List (String × Json) :=
  (Json.optional "type_name" l.typeName).toList ++ (Json.optional "field_name" l.fieldName).toList

namespace Tree

/-- The member that holds the name of a variant, if there is one. -/
def variantMembers (variantId : String) (variantName : Option String) : List (String × Json) :=
  ("variant_id", .string variantId) :: (Json.optional "variant_name" variantName).toList

/-- The members every node has: labels and kind. -/
def headMembers (l : Labels) (k : Kind) : List (String × Json) :=
  l.members ++ [("kind", .string k.name)]

mutual

/-- A tree as JSON. -/
def toJson : Tree → Json
  | leaf l content => .object (headMembers l content.kind ++ content.members)
  | array l elementKind elements =>
    .object (headMembers l .array ++
      [("element_kind", .string elementKind.name), ("elements", .array (jsonList elements))])
  | map l keyKind valueKind entries =>
    .object (headMembers l .map ++
      [("key_kind", .string keyKind.name), ("value_kind", .string valueKind.name),
        ("entries", .array (jsonEntries entries))])
  | tuple l fields => .object (headMembers l .tuple ++ [("fields", .array (jsonList fields))])
  | enum l variantId variantName fields =>
    .object (headMembers l .enum ++ variantMembers variantId variantName ++
      [("fields", .array (jsonList fields))])

/-- The trees of a list as JSON. -/
def jsonList : List Tree → List Json
  | [] => []
  | t :: ts => t.toJson :: jsonList ts

/-- The entries of a map as JSON. -/
def jsonEntries : List (Tree × Tree) → List Json
  | [] => []
  | (k, v) :: es => .object [("key", k.toJson), ("value", v.toJson)] :: jsonEntries es

end

/-- The value of the first member of a given name. -/
def member? (name : String) : List (String × Json) → Option Json
  | [] => none
  | (n, v) :: rest => if n = name then some v else member? name rest

/-- Whether none of the names occurs twice. -/
def unrepeated (names : List String) (members : List (String × Json)) : Bool :=
  names.all fun name => members.countP (·.1 == name) ≤ 1

/-- The text of a member that has to be there. -/
def textAt (name : String) (members : List (String × Json)) : Option String :=
  match member? name members with
  | some (.string s) => some s
  | _ => none

/-- The text of a member that may be null or absent. -/
def optionalTextAt (name : String) (members : List (String × Json)) : Option (Option String) :=
  match member? name members with
  | none => some none
  | some .null => some none
  | some (.string s) => some (some s)
  | some _ => none

/-- The kind of a node, by name or by number. -/
def nodeKindAt (members : List (String × Json)) : Option Kind :=
  match member? "kind" members with
  | some (.string s) => Kind.ofName? s
  | some (.number (.integer n)) => if 0 ≤ n then Kind.all[n.toNat]? else none
  | _ => none

/-- A kind that a node declares for what it holds. -/
def kindAt (name : String) (members : List (String × Json)) : Option Kind :=
  ((member? name members).bind Json.emptyCaseName?).bind Kind.ofName?

/-- The text of the number of a variant. -/
def variantIdAt (members : List (String × Json)) : Option String :=
  match member? "variant_id" members with
  | some (.string s) => some s
  | some (.number (.integer n)) => if 0 ≤ n then some (Digits.text n) else none
  | _ => none

/-- The names of the members that a node of a kind reads. -/
def ownNames : Kind → List String
  | .bytes => ["element_kind", "hex"]
  | .array => ["element_kind", "elements"]
  | .map => ["key_kind", "value_kind", "entries"]
  | .tuple => ["fields"]
  | .enum => ["variant_id", "variant_name", "fields"]
  | _ => ["value"]

/-- The labels among the members. -/
def labelsOf (members : List (String × Json)) : Option Labels := do
  let typeName ← optionalTextAt "type_name" members
  let fieldName ← optionalTextAt "field_name" members
  return { typeName, fieldName }

/-- The content of a leaf of a kind. -/
def leafOf (kind : Kind) (members : List (String × Json)) : Option Leaf :=
  match kind with
  | .bool =>
    match member? "value" members with
    | some (.bool b) => some (.bool b)
    | _ => none
  | .integer k => (textAt "value" members).map (.integer k)
  | .string => (textAt "value" members).map .string
  | .bytes => do
    let elementKind ← kindAt "element_kind" members
    let hex ← textAt "hex" members
    return .bytes elementKind hex
  | .decimal => (textAt "value" members).map .decimal
  | .preciseDecimal => (textAt "value" members).map .preciseDecimal
  | .reference => (textAt "value" members).map .reference
  | .own => (textAt "value" members).map .own
  | .nonFungibleLocalId => (textAt "value" members).map .nonFungibleLocalId
  | _ => none

mutual

/-- The tree of a JSON value, if it is the form of one. -/
def ofJson? : Json → Option Tree
  | .object members => do
    let kind ← nodeKindAt members
    let labels ← labelsOf members
    if !unrepeated (["kind", "type_name", "field_name"] ++ ownNames kind) members then none
    else match kind with
      | .array => do
        let elementKind ← kindAt "element_kind" members
        let elements ← treesAt "elements" members
        return array labels elementKind elements
      | .map => do
        let keyKind ← kindAt "key_kind" members
        let valueKind ← kindAt "value_kind" members
        let entries ← entriesAt "entries" members
        return map labels keyKind valueKind entries
      | .tuple => do
        let fields ← treesAt "fields" members
        return tuple labels fields
      | .enum => do
        let variantId ← variantIdAt members
        let variantName ← optionalTextAt "variant_name" members
        let fields ← treesAt "fields" members
        return enum labels variantId variantName fields
      | kind => (leafOf kind members).map (leaf labels)
  | _ => none

/-- The tree of the first member of a given name. -/
def treeAt (name : String) : List (String × Json) → Option Tree
  | [] => none
  | (n, v) :: rest => if n = name then ofJson? v else treeAt name rest

/-- The trees of the first member of a given name. -/
def treesAt (name : String) : List (String × Json) → Option (List Tree)
  | [] => none
  | (n, v) :: rest => if n = name then treesOf v else treesAt name rest

/-- The entries of the first member of a given name. -/
def entriesAt (name : String) : List (String × Json) → Option (List (Tree × Tree))
  | [] => none
  | (n, v) :: rest => if n = name then entriesOf v else entriesAt name rest

/-- The trees of an array. -/
def treesOf : Json → Option (List Tree)
  | .array items => trees items
  | _ => none

/-- The trees of a list of JSON values. -/
def trees : List Json → Option (List Tree)
  | [] => some []
  | item :: items => do
    let t ← ofJson? item
    let ts ← trees items
    return t :: ts

/-- The entries of an array. -/
def entriesOf : Json → Option (List (Tree × Tree))
  | .array items => entries items
  | _ => none

/-- The entries of a list of JSON values. -/
def entries : List Json → Option (List (Tree × Tree))
  | [] => some []
  | item :: items => do
    let e ← entry item
    let es ← entries items
    return e :: es

/-- The entry of a JSON value. -/
def entry : Json → Option (Tree × Tree)
  | .object members => do
    let k ← treeAt "key" members
    let v ← treeAt "value" members
    if unrepeated ["key", "value"] members then return (k, v) else none
  | .array [k, v] => do
    let k ← ofJson? k
    let v ← ofJson? v
    return (k, v)
  | _ => none

end

/-- The tree of a JSON text. -/
def ofText? (text : String) : Option Tree :=
  (Json.ofTextWithin? Json.nestingLimit text).bind ofJson?

end Tree

end SborSchema
