/-
# Trees with the same data

Some of what a tree holds only tells a reader where the data came from: type
names, the id of a variant beside its name, the kinds that an array or a map
declares, and a field name where nothing looks for it. Two trees have the same
data if they differ in these only. A field name counts below a tuple and below
an enum node, where structs look for it; the element kind of a byte string is
part of its content.

Key definitions: `Tree.SameData`, `Tree.SameFields`.
Key theorems: `Tree.SameData.kind_eq`, `Tree.SameFields.child?`.
-/
import Mathlib.Data.List.Forall2
import SborSchema.Schema.Product

namespace SborSchema.Tree

/-- Trees that differ in nothing but labels that no schema looks for, ids of variants, and
declared kinds of elements, keys and values. -/
inductive SameData : Tree → Tree → Prop
  | leaf (l l' : Labels) (content : Leaf) : SameData (.leaf l content) (.leaf l' content)
  | array (l l' : Labels) (k k' : Kind) {elements elements' : List Tree}
      (helements : List.Forall₂ SameData elements elements') :
      SameData (.array l k elements) (.array l' k' elements')
  | map (l l' : Labels) (keyKind valueKind keyKind' valueKind' : Kind)
      {entries entries' : List (Tree × Tree)}
      (hkeys : List.Forall₂ SameData (entries.map (·.1)) (entries'.map (·.1)))
      (hvalues : List.Forall₂ SameData (entries.map (·.2)) (entries'.map (·.2))) :
      SameData (.map l keyKind valueKind entries) (.map l' keyKind' valueKind' entries')
  | tuple (l l' : Labels) {fields fields' : List Tree}
      (hnames : fields.map fieldName = fields'.map fieldName)
      (hfields : List.Forall₂ SameData fields fields') :
      SameData (.tuple l fields) (.tuple l' fields')
  | enum (l l' : Labels) (id id' : String) (name : Option String) {fields fields' : List Tree}
      (hnames : fields.map fieldName = fields'.map fieldName)
      (hfields : List.Forall₂ SameData fields fields') :
      SameData (.enum l id name fields) (.enum l' id' name fields')

/-- Lists of fields with the same data under the same names. -/
structure SameFields (ts us : List Tree) : Prop where
  names : ts.map fieldName = us.map fieldName
  data : List.Forall₂ SameData ts us

theorem SameData.kind_eq {t u : Tree} (h : t.SameData u) : t.kind = u.kind := by
  cases h <;> rfl

/-- Under a name, two lists of fields with the same data both have a first child, and these
have the same data, or both have none. -/
theorem SameFields.child? {ts us : List Tree} (h : SameFields ts us) (name : String) :
    (∃ t u, t.SameData u ∧ child? name ts = some t ∧ child? name us = some u) ∨
      (child? name ts = none ∧ child? name us = none) := by
  obtain ⟨hnames, hdata⟩ := h
  induction hdata with
  | nil => exact .inr ⟨rfl, rfl⟩
  | @cons t u ts us head _ ih =>
    rw [List.map_cons, List.map_cons, List.cons.injEq] at hnames
    simp only [Tree.child?, List.find?_cons, hnames.1]
    cases u.fieldName == some name with
    | true => exact .inl ⟨t, u, head, rfl, rfl⟩
    | false => exact ih hnames.2

end SborSchema.Tree
