/-
# Lists that stay in name order

Putting something under a name keeps a list in name order and adds no name but
this one. Under distinct names, each member stands under its name.

Key definitions: `NameOrder.Ascending`.
Key theorems: `NameOrder.get?_of_mem`, `NameOrder.mem_names_update`,
`NameOrder.Ascending.update`.
-/
import Mathlib.Data.String.Basic
import SborSchema.NameOrder
import SborSchema.Proofs.Lists

namespace SborSchema.NameOrder

variable {α : Type} {name other : String} {fresh : α} {change : α → α}

/-- The names ascend, so each stands once. -/
def Ascending (list : List (String × α)) : Prop := (list.map (·.1)).Pairwise (· < ·)

theorem Ascending.nil : Ascending ([] : List (String × α)) := List.Pairwise.nil

theorem ascending_cons {e : String × α} {rest : List (String × α)} :
    Ascending (e :: rest) ↔ (∀ f ∈ rest, e.1 < f.1) ∧ Ascending rest := by
  simp only [Ascending, List.map_cons, List.pairwise_cons, List.forall_mem_map]

/-- Ascending names are distinct. -/
theorem Ascending.nodup {list : List (String × α)} (h : Ascending list) :
    (list.map (·.1)).Nodup :=
  h.imp fun hlt => ne_of_lt hlt

/-- Under distinct names, a member of the list stands under its name. -/
theorem get?_of_mem {list : List (String × α)} {a : α} (hnodup : (list.map (·.1)).Nodup)
    (ha : (name, a) ∈ list) : get? name list = some a := by
  rw [get?, find?_of_mem hnodup ha]
  rfl

/-- What stands under a name in the first of two lists comes before what stands in the second. -/
theorem get?_append (list list' : List (String × α)) :
    get? name (list ++ list') = (get? name list).or (get? name list') := by
  rw [get?, List.find?_append, get?, get?]
  cases list.find? (·.1 == name) <;> rfl

/-- A name stands in the list if and only if there is something under it. -/
theorem get?_isSome {list : List (String × α)} :
    (get? name list).isSome ↔ name ∈ list.map (·.1) := by
  simp [get?]

/-- The names after an update are those before it and the name updated. -/
theorem mem_names_update (list : List (String × α)) :
    other ∈ (update name fresh change list).map (·.1) ↔ other = name ∨ other ∈ list.map (·.1) := by
  induction list with
  | nil => simp [update]
  | cons e rest ih =>
    rw [update]
    by_cases hlt : name < e.1
    · rw [if_pos hlt, List.map_cons, List.mem_cons]
    · rw [if_neg hlt]
      by_cases heq : name = e.1
      · rw [if_pos heq, heq]
        simp
      · rw [if_neg heq, List.map_cons, List.mem_cons, ih, List.map_cons, List.mem_cons]
        tauto

/-- **An update keeps the names in order.** -/
theorem Ascending.update : ∀ {list : List (String × α)}, Ascending list →
    Ascending (update name fresh change list)
  | [], _ => List.pairwise_singleton _ _
  | (n, a) :: rest, h => by
    obtain ⟨hhead, hrest⟩ := ascending_cons.mp h
    rw [NameOrder.update]
    by_cases hlt : name < n
    · rw [if_pos hlt]
      exact ascending_cons.mpr ⟨List.forall_mem_cons.mpr
        ⟨hlt, fun f hf => String.lt_trans hlt (hhead f hf)⟩, h⟩
    · rw [if_neg hlt]
      by_cases heq : name = n
      · rw [if_pos heq]
        exact ascending_cons.mpr ⟨hhead, hrest⟩
      · rw [if_neg heq]
        refine ascending_cons.mpr ⟨fun f hf => ?_, hrest.update⟩
        have hname : f.1 = name ∨ f.1 ∈ rest.map (·.1) :=
          (mem_names_update rest).mp (List.mem_map_of_mem hf)
        rcases hname with hname | hname
        · have hgt : n < name := (lt_trichotomy name n).resolve_left hlt |>.resolve_left heq
          exact hname ▸ hgt
        · obtain ⟨g, hg, hgf⟩ := List.mem_map.mp hname
          exact hgf ▸ hhead g hg

end SborSchema.NameOrder
