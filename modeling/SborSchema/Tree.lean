/-
# Value trees

A value tree has one node for every value in a decoded ledger value. A node
holds a leaf, or is one of the four composites: an array, a map with entries in
order, a tuple, or an enum node that names its variant. Each node may carry a
type name and a field name; both are labels that only struct schemas read.

Key definitions: `Tree`, `Tree.kind`, `Tree.children`, `Tree.height`, `Tree.depth`.
Key theorems: `Tree.size_eq`, `Tree.sizeList_children_lt`.
-/
import SborSchema.Kind

namespace SborSchema

/-- The names a node may carry. -/
structure Labels where
  typeName : Option String := none
  fieldName : Option String := none
deriving DecidableEq, Repr

/-- The content of a node without children. Integers are decimal text. -/
inductive Leaf
  | bool (value : Bool)
  | integer (kind : IntegerKind) (text : String)
  | string (text : String)
  | bytes (elementKind : Kind) (hex : String)
  | decimal (text : String)
  | preciseDecimal (text : String)
  | reference (text : String)
  | own (text : String)
  | nonFungibleLocalId (text : String)
deriving DecidableEq, Repr

/-- The kind of a node with this content. -/
def Leaf.kind : Leaf → Kind
  | bool _ => .bool
  | integer k _ => .integer k
  | string _ => .string
  | bytes .. => .bytes
  | decimal _ => .decimal
  | preciseDecimal _ => .preciseDecimal
  | reference _ => .reference
  | own _ => .own
  | nonFungibleLocalId _ => .nonFungibleLocalId

/-- A value tree. -/
inductive Tree
  | leaf (labels : Labels) (content : Leaf)
  | array (labels : Labels) (elementKind : Kind) (elements : List Tree)
  | map (labels : Labels) (keyKind valueKind : Kind) (entries : List (Tree × Tree))
  | tuple (labels : Labels) (fields : List Tree)
  | enum (labels : Labels) (variantId : String) (variantName : Option String)
      (fields : List Tree)
deriving BEq, Repr

namespace Tree

/-- The labels of the top node. -/
def labels : Tree → Labels
  | leaf l _ => l
  | array l _ _ => l
  | map l _ _ _ => l
  | tuple l _ => l
  | enum l _ _ _ => l

/-- The field name of the top node. -/
def fieldName (t : Tree) : Option String := t.labels.fieldName

/-- The kind of the top node. -/
def kind : Tree → Kind
  | leaf _ content => content.kind
  | array .. => .array
  | map .. => .map
  | tuple .. => .tuple
  | enum .. => .enum

/-- The kind and the text of an integer node. -/
def integerText? : Tree → Option (IntegerKind × String)
  | leaf _ (.integer k text) => some (k, text)
  | _ => none

/-- The nodes right below the top node; each entry of a map gives its key, then its value. -/
def children : Tree → List Tree
  | leaf .. => []
  | array _ _ elements => elements
  | map _ _ _ entries => entries.flatMap fun e => [e.1, e.2]
  | tuple _ fields => fields
  | enum _ _ _ fields => fields

mutual

/-- The number of nodes. -/
def size : Tree → Nat
  | leaf .. => 1
  | array _ _ elements => 1 + sizeList elements
  | map _ _ _ entries => 1 + sizeEntries entries
  | tuple _ fields => 1 + sizeList fields
  | enum _ _ _ fields => 1 + sizeList fields

/-- The number of nodes of a list of trees. -/
def sizeList : List Tree → Nat
  | [] => 0
  | t :: ts => t.size + sizeList ts

/-- The number of nodes of the keys and values of a map. -/
def sizeEntries : List (Tree × Tree) → Nat
  | [] => 0
  | (k, v) :: es => k.size + v.size + sizeEntries es

end

mutual

/-- The greatest number of nodes on a way down from the top node. -/
def height : Tree → Nat
  | leaf .. => 1
  | array _ _ elements => 1 + heightList elements
  | map _ _ _ entries => 1 + heightEntries entries
  | tuple _ fields => 1 + heightList fields
  | enum _ _ _ fields => 1 + heightList fields

/-- The greatest height in a list of trees, 0 for none. -/
def heightList : List Tree → Nat
  | [] => 0
  | t :: ts => max t.height (heightList ts)

/-- The greatest height of a key or value of a map, 0 for none. -/
def heightEntries : List (Tree × Tree) → Nat
  | [] => 0
  | (k, v) :: es => max (max k.height v.height) (heightEntries es)

end

theorem sizeList_append (ss ts : List Tree) : sizeList (ss ++ ts) = sizeList ss + sizeList ts := by
  induction ss with
  | nil => simp [sizeList]
  | cons s ss ih => simp [sizeList, ih, Nat.add_assoc]

theorem sizeList_reverse (ts : List Tree) : sizeList ts.reverse = sizeList ts := by
  induction ts with
  | nil => rfl
  | cons t ts ih => simp [sizeList, sizeList_append, ih, Nat.add_comm]

theorem sizeEntries_eq (es : List (Tree × Tree)) :
    sizeEntries es = sizeList (es.flatMap fun e => [e.1, e.2]) := by
  induction es with
  | nil => rfl
  | cons e es ih => simp [sizeEntries, sizeList, ih, Nat.add_assoc]

/-- A tree has one node more than its children together. -/
theorem size_eq (t : Tree) : t.size = 1 + sizeList t.children := by
  cases t <;> simp [size, children, sizeList, sizeEntries_eq]

theorem sizeList_children_lt (t : Tree) : sizeList t.children < t.size := by
  rw [size_eq]
  omega

/-- Takes the nodes off a stack one by one, with their levels, and puts the
children of each back on; gives the deepest level met, or `best`. -/
def deepest (stack : List (Tree × Nat)) (best : Nat) : Nat :=
  match stack with
  | [] => best
  | (t, level) :: rest =>
    deepest ((t.children.map fun c => (c, level + 1)).reverse ++ rest) (max best level)
termination_by sizeList (stack.map Prod.fst)
decreasing_by
  have h : sizeList t.children < t.size := sizeList_children_lt t
  simp only [List.map_append, List.map_reverse, List.map_map, List.map_cons, Function.comp_def,
    List.map_id', sizeList_append, sizeList_reverse, sizeList]
  omega

/-- The nesting depth, measured without recursion on the tree: 1 for a leaf. -/
def depth (t : Tree) : Nat := deepest [(t, 1)] 0

end Tree

end SborSchema
