/-
# Lists in name order

A list of named things whose names ascend, each name once. What is put under a
name goes to its place, or changes what is there.

Key definitions: `NameOrder.get?`, `NameOrder.update`, `NameOrder.put`.
Key theorems: `NameOrder.get?_put`.
-/

namespace SborSchema.NameOrder

variable {α : Type}

/-- What stands under a name. -/
def get? (name : String) (list : List (String × α)) : Option α :=
  (list.find? (·.1 == name)).map (·.2)

/-- Puts `fresh` under a name that is not there, and applies `change` to what is there. -/
def update (name : String) (fresh : α) (change : α → α) :
    List (String × α) → List (String × α)
  | [] => [(name, fresh)]
  | (n, a) :: rest =>
    if name < n then (name, fresh) :: (n, a) :: rest
    else if name = n then (n, change a) :: rest
    else (n, a) :: update name fresh change rest

/-- Puts a value under a name, in place of the one that is there. -/
def put (name : String) (value : α) (list : List (String × α)) : List (String × α) :=
  update name value (fun _ => value) list

theorem get?_nil (name : String) : get? name ([] : List (String × α)) = none := rfl

theorem get?_cons (name n : String) (a : α) (rest : List (String × α)) :
    get? name ((n, a) :: rest) = if n = name then some a else get? name rest := by
  by_cases h : n = name <;> simp [get?, h]

/-- What was put under a name stands there, and nothing else changes. -/
theorem get?_put (name other : String) (value : α) (list : List (String × α)) :
    get? other (put name value list) = if name = other then some value else get? other list := by
  induction list with
  | nil => exact get?_cons ..
  | cons e rest ih =>
    obtain ⟨n, a⟩ := e
    simp only [put] at ih
    simp only [put, update]
    split
    · exact get?_cons ..
    · split
      · rename_i h
        subst h
        simp only [get?_cons]
        split <;> rfl
      · rename_i h
        simp only [get?_cons, ih]
        by_cases hn : n = other
        · have : name ≠ other := fun e => h (e.trans hn.symm)
          simp [hn, this]
        · simp [hn]

end SborSchema.NameOrder
