/-
# Node kinds

A value tree is made of nodes of twenty-two kinds: truth values, ten integer
kinds, texts of several roles, byte strings and four composites. The kinds
have a fixed order, `Kind.all`, which numbers them and in which sets of kinds
are written.

Key definitions: `IntegerKind`, `IntegerKind.min`, `IntegerKind.max`, `Kind`,
`Kind.all`, `Kind.index`, `Kind.name`, `Kind.ofName?`.
Key theorems: `Kind.all_getElem?_index`, `Kind.index_injective`, `Kind.ofName?_name`.
-/

namespace SborSchema

/-- The widths an integer kind can have. -/
inductive Width
  | w8 | w16 | w32 | w64 | w128
deriving DecidableEq, Repr

/-- The number of bits of a width. -/
def Width.bits : Width → Nat
  | .w8 => 8
  | .w16 => 16
  | .w32 => 32
  | .w64 => 64
  | .w128 => 128

/-- An integer kind: its width, and whether it holds negative values. -/
structure IntegerKind where
  signed : Bool
  width : Width
deriving DecidableEq, Repr

namespace IntegerKind

def i8 : IntegerKind := ⟨true, .w8⟩
def i16 : IntegerKind := ⟨true, .w16⟩
def i32 : IntegerKind := ⟨true, .w32⟩
def i64 : IntegerKind := ⟨true, .w64⟩
def i128 : IntegerKind := ⟨true, .w128⟩
def u8 : IntegerKind := ⟨false, .w8⟩
def u16 : IntegerKind := ⟨false, .w16⟩
def u32 : IntegerKind := ⟨false, .w32⟩
def u64 : IntegerKind := ⟨false, .w64⟩
def u128 : IntegerKind := ⟨false, .w128⟩

/-- The integer kinds in order: signed ones first, narrow ones first. -/
def all : List IntegerKind := [i8, i16, i32, i64, i128, u8, u16, u32, u64, u128]

/-- The least value of the kind. -/
def min (k : IntegerKind) : Int :=
  if k.signed then -(1 <<< (k.width.bits - 1) : Nat) else 0

/-- The greatest value of the kind. -/
def max (k : IntegerKind) : Int :=
  (if k.signed then 1 <<< (k.width.bits - 1) else 1 <<< k.width.bits : Nat) - 1

/-- The name a node of this kind carries, such as `I8`. -/
def name (k : IntegerKind) : String :=
  (if k.signed then "I" else "U") ++ Nat.repr k.width.bits

/-- The name of the machine type of this range, such as `i8`. -/
def primitive (k : IntegerKind) : String :=
  (if k.signed then "i" else "u") ++ Nat.repr k.width.bits

theorem mem_all (k : IntegerKind) : k ∈ all := by
  rcases k with ⟨_ | _, _ | _ | _ | _ | _⟩ <;> decide

end IntegerKind

/-- The kind of a node. -/
inductive Kind
  | bool
  | integer (kind : IntegerKind)
  | string
  | bytes
  | decimal
  | preciseDecimal
  | reference
  | own
  | nonFungibleLocalId
  | array
  | map
  | tuple
  | enum
deriving DecidableEq, Repr

namespace Kind

/-- Every kind once, in declaration order. -/
def all : List Kind :=
  bool :: IntegerKind.all.map integer ++
    [string, bytes, decimal, preciseDecimal, reference, own, nonFungibleLocalId,
      array, map, tuple, enum]

/-- The name of a kind, as it stands in a written tree. -/
def name : Kind → String
  | bool => "Bool"
  | integer k => k.name
  | string => "String"
  | bytes => "Bytes"
  | decimal => "Decimal"
  | preciseDecimal => "PreciseDecimal"
  | reference => "Reference"
  | own => "Own"
  | nonFungibleLocalId => "NonFungibleLocalId"
  | array => "Array"
  | map => "Map"
  | tuple => "Tuple"
  | enum => "Enum"

/-- The kind of a given name, if there is one. -/
def ofName? (name : String) : Option Kind :=
  all.find? (·.name == name)

/-- Whether the kind is one of the ten integer kinds. -/
def isInteger : Kind → Bool
  | integer _ => true
  | _ => false

/-- Whether the kind is an integer kind without negative values. -/
def isUnsigned : Kind → Bool
  | integer k => !k.signed
  | _ => false

/-- The place of a kind in `Kind.all`. -/
def index : Kind → Nat
  | bool => 0
  | integer k =>
    (if k.signed then 1 else 6) +
      match k.width with
      | .w8 => 0
      | .w16 => 1
      | .w32 => 2
      | .w64 => 3
      | .w128 => 4
  | string => 11
  | bytes => 12
  | decimal => 13
  | preciseDecimal => 14
  | reference => 15
  | own => 16
  | nonFungibleLocalId => 17
  | array => 18
  | map => 19
  | tuple => 20
  | enum => 21

/-- `Kind.all` lists the kinds by their index. -/
theorem all_getElem?_index (k : Kind) : all[k.index]? = some k := by
  rcases k with _ | ⟨⟨_ | _, _ | _ | _ | _ | _⟩⟩ | _ | _ | _ | _ | _ | _ | _ | _ | _ | _ | _ <;> rfl

theorem mem_all (k : Kind) : k ∈ all :=
  List.mem_of_getElem? (all_getElem?_index k)

theorem index_lt (k : Kind) : k.index < 22 := by
  rcases k with _ | ⟨⟨_ | _, _ | _ | _ | _ | _⟩⟩ | _ | _ | _ | _ | _ | _ | _ | _ | _ | _ | _ <;> decide

theorem index_injective {a b : Kind} (h : a.index = b.index) : a = b := by
  have ha := all_getElem?_index a
  rw [h, all_getElem?_index b] at ha
  exact (Option.some.inj ha).symm

/-- A kind is found under its own name. -/
theorem ofName?_name (k : Kind) : ofName? k.name = some k := by
  rcases k with _ | ⟨⟨_ | _, _ | _ | _ | _ | _⟩⟩ | _ | _ | _ | _ | _ | _ | _ | _ | _ | _ | _ <;>
    decide

end Kind

end SborSchema
