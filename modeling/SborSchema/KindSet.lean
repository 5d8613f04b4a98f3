/-
# Sets of kinds

A schema states the kinds of node it accepts as a set. The set has one bit
for each kind, so two sets with the same members are equal. It is written as
the names of its members in declaration order, apart from two words for the
full and the empty set.

Key definitions: `KindSet`, `KindSet.contains`, `KindSet.union`, `KindSet.text`.
Key theorems: `KindSet.contains_union`, `KindSet.contains_ofList`, `KindSet.ext`.
-/
import SborSchema.Kind

namespace SborSchema

/-- A set of kinds, one bit each. -/
structure KindSet where
  bits : BitVec 22
deriving DecidableEq, Repr

namespace KindSet

/-- Whether the kind is a member. -/
def contains (s : KindSet) (k : Kind) : Bool :=
  s.bits.getLsbD k.index

/-- The set without members. -/
def empty : KindSet := ⟨0⟩

/-- The set with the one member `k`. -/
def single (k : Kind) : KindSet := ⟨BitVec.twoPow 22 k.index⟩

/-- The members of either set. -/
def union (s t : KindSet) : KindSet := ⟨s.bits ||| t.bits⟩

/-- The set of the kinds in a list. -/
def ofList : List Kind → KindSet
  | [] => empty
  | k :: ks => (single k).union (ofList ks)

/-- The set of every kind. -/
def all : KindSet := ⟨BitVec.allOnes 22⟩

/-- The set of the ten integer kinds. -/
def integers : KindSet := ofList (IntegerKind.all.map .integer)

/-- The set of the two decimal kinds. -/
def decimals : KindSet := ofList [.decimal, .preciseDecimal]

/-- Whether there is no member. -/
def isEmpty (s : KindSet) : Bool := s = empty

/-- The members in declaration order. -/
def toList (s : KindSet) : List Kind := Kind.all.filter s.contains

/-- The written form of a set. -/
def text (s : KindSet) : String :=
  if s = all then "any kind"
  else if s = empty then "no kind"
  else " | ".intercalate (s.toList.map Kind.name)

/-- The written form of a set, under the name of its type. -/
def debugText (s : KindSet) : String := "KindSet(" ++ s.text ++ ")"

@[simp] theorem contains_empty (k : Kind) : empty.contains k = false := by
  simp [empty, contains]

@[simp] theorem contains_all (k : Kind) : all.contains k = true := by
  simp only [all, contains, BitVec.getLsbD_allOnes]
  exact decide_eq_true k.index_lt

@[simp] theorem contains_single (k l : Kind) : (single k).contains l = decide (l = k) := by
  by_cases h : l = k
  · simp [single, contains, h, Kind.index_lt]
  · have hi : ¬ k.index = l.index := fun e => h (Kind.index_injective e.symm)
    simp [single, contains, h, hi, BitVec.getLsbD_twoPow]

@[simp] theorem contains_union (s t : KindSet) (k : Kind) :
    (s.union t).contains k = (s.contains k || t.contains k) := by
  simp [union, contains]

theorem contains_ofList (ks : List Kind) (k : Kind) :
    (ofList ks).contains k = decide (k ∈ ks) := by
  induction ks with
  | nil => simp [ofList]
  | cons l ls ih => simp [ofList, ih]

/-- Sets with the same members are equal. -/
theorem ext {s t : KindSet} (h : ∀ k, s.contains k = t.contains k) : s = t := by
  rcases s with ⟨s⟩
  rcases t with ⟨t⟩
  congr 1
  apply BitVec.eq_of_getLsbD_eq
  intro i hi
  have : ∀ j < 22, ∃ k : Kind, k.index = j := by
    intro j hj
    have : j < Kind.all.length := hj
    refine ⟨Kind.all[j], ?_⟩
    revert j
    decide
  obtain ⟨k, rfl⟩ := this i hi
  exact h k

end KindSet

end SborSchema
