/-
# Children by name

A struct asks for the first child that carries a name. Nothing else about the
list of children counts for it: two lists with the same first child under every
declared name are the same to it (`Tree.SameFirst`). So children of different
names may change places, a child whose name is not declared may stand anywhere
or be left out, and so may a child that comes after another one of its name.

Key definitions: `Tree.carries`, `Tree.SameFirst`, `Tree.missing`, `Tree.Edit`.
Key theorems: `Tree.child?_eq_none_iff`, `Tree.child?_append`, `Tree.Edit.sameFirst`,
`Tree.sameFirst_of_edits`.
-/
import Mathlib.Logic.Relation
import SborSchema.Schema.Product

namespace SborSchema.Tree

variable {name : String} {t u : Tree} {ts us children : List Tree} {declared : List String}

/-! ### The first child of a name -/

theorem child?_cons_of_eq (h : t.fieldName = some name) : child? name (t :: children) = some t :=
  List.find?_cons_of_pos (by simp [h])

theorem child?_cons_of_ne (h : t.fieldName ≠ some name) :
    child? name (t :: children) = child? name children :=
  List.find?_cons_of_neg (by simpa using h)

theorem child?_eq_none_iff : child? name children = none ↔ ∀ t ∈ children, t.fieldName ≠ some name := by
  rw [child?, List.find?_eq_none]
  simp only [beq_iff_eq, ne_eq]

/-- The children of a second list count only under names that the first one does not have. -/
theorem child?_append : child? name (ts ++ us) = (child? name ts).or (child? name us) :=
  List.find?_append

/-- Whether one of the children carries a field name. -/
def carries (name : String) (children : List Tree) : Bool :=
  children.any fun t => t.fieldName == some name

/-- A name has a first child if and only if one of the children carries it. -/
theorem isSome_child? (name : String) (children : List Tree) :
    (child? name children).isSome = carries name children := by
  rw [child?, carries, List.isSome_find?]

/-! ### Lists with the same first children -/

/-- Under every declared name, the two lists have the same first child, or both have none. -/
def SameFirst (declared : List String) (ts us : List Tree) : Prop :=
  ∀ name ∈ declared, child? name ts = child? name us

/-- The declared names that no child carries, in the order of the declaration. -/
def missing (names : List String) (children : List Tree) : List String :=
  names.filter fun name => !carries name children

theorem filter_isNone_child? (names : List String) (children : List Tree) :
    (names.filter fun name => (child? name children).isNone) = missing names children := by
  apply List.filter_congr
  intro name _
  rw [← isSome_child?, Option.not_isSome]

theorem missing_of_sameFirst (h : SameFirst declared ts us) :
    missing declared ts = missing declared us := by
  apply List.filter_congr
  intro name hname
  rw [← isSome_child?, ← isSome_child?, h name hname]

theorem child?_ne_none_of_missing (h : (missing declared children).isEmpty = true) :
    ∀ name ∈ declared, child? name children ≠ none := by
  intro name hname hnone
  rw [List.isEmpty_iff, missing, List.filter_eq_nil_iff] at h
  have hcarried := h name hname
  rw [← isSome_child?, hnone] at hcarried
  exact hcarried rfl

/-- A change in a list of children: two neighbours of different names change places, a child
without a declared name comes in, or one that repeats the name of an earlier child does. -/
inductive Edit (declared : List String) : List Tree → List Tree → Prop
  | swap {t u : Tree} (before after : List Tree) (h : t.fieldName ≠ u.fieldName) :
      Edit declared (before ++ t :: u :: after) (before ++ u :: t :: after)
  | insert {t : Tree} (before after : List Tree) (h : ∀ name ∈ declared, t.fieldName ≠ some name) :
      Edit declared (before ++ after) (before ++ t :: after)
  | duplicate {t u : Tree} (before after : List Tree) (hu : u ∈ before)
      (h : t.fieldName = u.fieldName) : Edit declared (before ++ after) (before ++ t :: after)

/-- A change leaves the first child of every declared name where it is. -/
theorem Edit.sameFirst (h : Edit declared ts us) : SameFirst declared ts us := by
  intro name hname
  cases h with
  | @swap t u before after h =>
    rw [child?_append, child?_append]
    congr 1
    by_cases ht : t.fieldName = some name
    · have hu : u.fieldName ≠ some name := fun hu => h (ht.trans hu.symm)
      rw [child?_cons_of_eq ht, child?_cons_of_ne hu, child?_cons_of_eq ht]
    · rw [child?_cons_of_ne ht]
      by_cases hu : u.fieldName = some name
      · rw [child?_cons_of_eq hu, child?_cons_of_eq hu]
      · rw [child?_cons_of_ne hu, child?_cons_of_ne hu, child?_cons_of_ne ht]
  | insert before after h =>
    rw [child?_append, child?_append, child?_cons_of_ne (h name hname)]
  | @duplicate t u before after hu h =>
    rw [child?_append, child?_append]
    by_cases ht : t.fieldName = some name
    · -- The earlier child of the name is found before the search comes to the new one.
      have hfound : child? name before ≠ none := by
        intro hnone
        rw [child?_eq_none_iff] at hnone
        exact hnone u hu (h.symm.trans ht)
      obtain ⟨w, hw⟩ := Option.ne_none_iff_exists'.mp hfound
      rw [hw, Option.some_or, Option.some_or]
    · rw [child?_cons_of_ne ht]

/-- Any number of changes, made or undone, leaves the first children where they are. -/
theorem sameFirst_of_edits (h : Relation.EqvGen (Edit declared) ts us) :
    SameFirst declared ts us := by
  induction h with
  | rel ts us h => exact h.sameFirst
  | refl ts => exact fun _ _ => rfl
  | symm ts us _ ih => exact fun name hname => (ih name hname).symm
  | trans ts us ws _ _ ih ih' => exact fun name hname => (ih name hname).trans (ih' name hname)

end SborSchema.Tree
