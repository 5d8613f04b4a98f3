/-
# From nodes to values

A node stands for a value: an alias for that of its target, an untagged plain
scalar for what its text says, another untagged scalar for its text. A tag of
the document's own is kept with the value, and passed over if its name is no
text; other tags choose the reading of a scalar and mean nothing on a
collection. Collections may nest 128 deep, aliases
included, and a document may follow at most a hundred aliases for each of its
marks.

Key definitions: `Yaml.ofNode`, `Yaml.ofDocument`, `Yaml.documentsOf`, `Yaml.ofText`.
-/
import SborSchema.Yaml.Node.Stream
import SborSchema.Yaml.Scalar

namespace SborSchema.Yaml

/-- How deep collections may nest. -/
def nestingLimit : Nat := 128

/-- What a document offers to its nodes. -/
structure Surroundings where
  /-- The nodes with an anchor, by number. -/
  anchored : List (Nat × Node)
  /-- How many aliases may be followed. -/
  jumpLimit : Nat

/-- The surroundings of the nodes of a document. -/
def Surroundings.of (root : Node) : Surroundings where
  anchored := root.anchored.reverse
  jumpLimit := 100 * root.size

/-- A step that builds a value and counts the aliases that were followed. -/
abbrev Builder := ReaderT Surroundings (StateT Nat (Except Fault))

/-- The node an alias stands for; any other node stands for itself. -/
def resolve : Node → Builder Node
  | .reference target => do
    let surroundings ← read
    modify (· + 1)
    if surroundings.jumpLimit < (← get) then throw .repetition
    match surroundings.anchored.find? (·.1 == target) with
    | some (_, node) => return node
    | none => throw .unknownAlias
  | node => return node

/-- The value under a tag. -/
def underTag : Option Tag → Yaml → Yaml
  | some (.own name), value => .tagged name value
  | _, value => value

/-- The value of a scalar without a tag. -/
def ofUntagged (text : String) (style : ScalarStyle) : Except Fault Yaml :=
  if style = .plain then ofPlain text else .ok (.string text)

/-- The value of a scalar. -/
def ofScalar (tag : Option Tag) (text : String) (style : ScalarStyle) : Except Fault Yaml :=
  match tag with
  | some (.foreign name) => ofCoreTag name text
  | _ => (ofUntagged text style).map (underTag tag)

/-- Builds the entries of a mapping in order, each by `build`; no key may come twice. -/
def buildEntries (build : Node → Builder Yaml) :
    List (Node × Node) → List (Yaml × Yaml) → Builder (List (Yaml × Yaml))
  | [], done => return done.reverse
  | (k, v) :: rest, done => do
    let key ← build k
    if hasKey key done then throw .duplicateKey
    let value ← build v
    buildEntries build rest ((key, value) :: done)

/-- The value of a node inside which collections nest at most `limit` deep. -/
def ofNode : Nat → Node → Builder Yaml
  | 0, node => do
    match ← resolve node with
    | .scalar p text style => ofScalar p.tag text style
    | _ => throw .nesting
  | limit + 1, node => do
    match ← resolve node with
    | .scalar p text style => ofScalar p.tag text style
    | .sequence p items =>
      return underTag p.tag (.sequence (← items.mapM fun item => ofNode limit item))
    | .mapping p entries =>
      return underTag p.tag (.mapping (← buildEntries (fun n => ofNode limit n) entries []))
    | .reference _ => throw .unknownAlias

/-- The value of a document. -/
def ofDocument (root : Node) : Except Fault Yaml :=
  ((ofNode nestingLimit root).run (.of root)).run' 0

/-- The values of the documents of a text; a fault is the last. A text without documents
stands for null. -/
def documentsOf (text : String) : List (Except Fault Yaml) :=
  match nodesOf text with
  | [] => [.ok .null]
  | nodes => nodes.map fun node => node.bind ofDocument

/-- The value of a text that holds one document. -/
def ofText (text : String) : Except Fault Yaml :=
  match documentsOf text with
  | [document] => document
  | _ => .error .severalDocuments

end SborSchema.Yaml
