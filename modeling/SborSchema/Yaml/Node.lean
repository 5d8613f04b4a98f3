/-
# Nodes of a document

The tokens of a document form a tree of nodes: scalars, sequences, mappings, and
aliases that stand for a node elsewhere. A node may carry an anchor, by which
aliases refer to it, and a tag. An anchor is numbered by how many names were
in use when it was read; where a number was given twice the later node has it.
A tag is known by its bytes, which may be no text.

Key definitions: `Yaml.Tag`, `Yaml.Tag.ofBytes`, `Yaml.Node`, `Yaml.Node.size`,
`Yaml.Node.anchored`.
-/
import SborSchema.Yaml.Token

namespace SborSchema.Yaml

/-- The tag of a node. -/
inductive Tag
  /-- A tag of the document's own, by its name. -/
  | own (name : String)
  /-- A tag of the document's own whose name is no text. -/
  | unreadable
  /-- Any other tag. -/
  | foreign (name : String)
deriving DecidableEq, Repr

/-- The text of a list of bytes. -/
def Tag.text? (bytes : List UInt8) : Option String := String.fromUTF8? ⟨bytes.toArray⟩

/-- The tag of a list of bytes. The document's own start with a mark, which is not part of
the name unless it stands alone. -/
def Tag.ofBytes : List UInt8 → Tag
  | 0x21 :: [] => .own "!"
  | 0x21 :: rest =>
    match text? rest with
    | some name => .own (bareTagName name)
    | none => .unreadable
  | bytes => .foreign ((text? bytes).getD "")

/-- What may stand in front of a node. -/
structure Properties where
  anchor : Option Nat
  tag : Option Tag
deriving DecidableEq, Repr

/-- A node of a document. -/
inductive Node
  | scalar (properties : Properties) (text : String) (style : ScalarStyle)
  | sequence (properties : Properties) (items : List Node)
  | mapping (properties : Properties) (entries : List (Node × Node))
  | reference (target : Nat)
deriving Repr

namespace Node

/-- A scalar that is not there. -/
def blank (properties : Properties) : Node := scalar properties "" .plain

mutual

/-- The number of marks of a node: a collection counts its start and its end. -/
def size : Node → Nat
  | scalar .. => 1
  | reference _ => 1
  | sequence _ items => sizeOfItems items + 2
  | mapping _ entries => sizeOfEntries entries + 2

/-- The number of marks of a list of nodes. -/
def sizeOfItems : List Node → Nat
  | [] => 0
  | n :: ns => n.size + sizeOfItems ns

/-- The number of marks of the entries of a mapping. -/
def sizeOfEntries : List (Node × Node) → Nat
  | [] => 0
  | (k, v) :: rest => k.size + v.size + sizeOfEntries rest

end

/-- A node under the number of its anchor. -/
def ownAnchor (p : Properties) (n : Node) : List (Nat × Node) :=
  (p.anchor.map fun id => (id, n)).toList

mutual

/-- The nodes with an anchor, in the order of their starts. -/
def anchored : Node → List (Nat × Node)
  | scalar p text style => ownAnchor p (scalar p text style)
  | reference _ => []
  | sequence p items => ownAnchor p (sequence p items) ++ anchoredItems items
  | mapping p entries => ownAnchor p (mapping p entries) ++ anchoredEntries entries

/-- The nodes with an anchor in a list of nodes. -/
def anchoredItems : List Node → List (Nat × Node)
  | [] => []
  | n :: ns => n.anchored ++ anchoredItems ns

/-- The nodes with an anchor in the entries of a mapping. -/
def anchoredEntries : List (Node × Node) → List (Nat × Node)
  | [] => []
  | (k, v) :: rest => k.anchored ++ v.anchored ++ anchoredEntries rest

end

end Node

end SborSchema.Yaml
