/-
# Records

Putting a list of fields into a record one by one keeps the list as it is if no
name comes twice. In any case each name of the record stands there once, and
two lists with corresponding fields give records with corresponding fields.
What stands for an absent field is the missing value.

Key definitions: `Value.present?`.
Key theorems: `Value.recordOf_of_nodup`, `Value.exists_recordOf`.
-/
import SborSchema.Proofs.Lists
import SborSchema.Value

namespace SborSchema.Value

/-- A new name goes to the end. -/
theorem putField_of_notMem {name : String} {v : Value} : ∀ {fields : List (String × Value)},
    name ∉ fields.map (·.1) → putField name v fields = fields ++ [(name, v)]
  | [], _ => rfl
  | (n, w) :: rest, h => by
    simp only [List.map_cons, List.mem_cons, not_or] at h
    rw [putField, if_neg (Ne.symm h.1), putField_of_notMem h.2, List.cons_append]

/-- Fields of new names go to the end one after the other. -/
theorem foldl_putField {fields : List (String × Value)} : ∀ {done : List (String × Value)},
    ((done ++ fields).map (·.1)).Nodup →
    fields.foldl (fun done f => putField f.1 f.2 done) done = done ++ fields := by
  induction fields with
  | nil => simp
  | cons f fields ih =>
    intro done h
    have hnew : f.1 ∉ done.map (·.1) := by
      intro hf
      rw [List.map_append, List.nodup_append] at h
      exact h.2.2 _ hf _ List.mem_cons_self rfl
    rw [List.foldl_cons, putField_of_notMem hnew, ih (by simpa using h)]
    simp

/-- **The record of fields of distinct names has just these fields in their order.** -/
theorem recordOf_of_nodup {fields : List (String × Value)} (h : (fields.map (·.1)).Nodup) :
    recordOf fields = record fields := by
  rw [recordOf, foldl_putField (by simpa using h), List.nil_append]

/-- A name that is there changes none of the names. -/
theorem names_putField_of_mem {name : String} {v : Value} : ∀ {fields : List (String × Value)},
    name ∈ fields.map (·.1) → (putField name v fields).map (·.1) = fields.map (·.1)
  | (n, w) :: rest, h => by
    rw [putField]
    by_cases hn : n = name
    · rw [if_pos hn]
      rfl
    · have hrest : name ∈ rest.map (·.1) := (List.mem_cons.mp h).resolve_left (Ne.symm hn)
      rw [if_neg hn, List.map_cons, names_putField_of_mem hrest, List.map_cons]

theorem nodup_putField {name : String} {v : Value} {fields : List (String × Value)}
    (h : (fields.map (·.1)).Nodup) : ((putField name v fields).map (·.1)).Nodup := by
  by_cases hname : name ∈ fields.map (·.1)
  · rwa [names_putField_of_mem hname]
  · rw [putField_of_notMem hname, List.map_append, List.nodup_append]
    refine ⟨h, List.pairwise_singleton _ _, ?_⟩
    rintro n hn _ hm rfl
    obtain rfl : n = name := List.mem_singleton.mp hm
    exact hname hn

/-- What is put under one name into two lists of corresponding fields goes to
corresponding places. -/
theorem putField_forall₂ {R : Value → Value → Prop} {name : String} {v w : Value} (hvw : R v w)
    {fs gs : List (String × Value)} (h : List.Forall₂ (fun f g => g.1 = f.1 ∧ R f.2 g.2) fs gs) :
    List.Forall₂ (fun f g => g.1 = f.1 ∧ R f.2 g.2) (putField name v fs) (putField name w gs) := by
  induction h with
  | nil => exact .cons ⟨rfl, hvw⟩ .nil
  | @cons f g fs gs head tail ih =>
    obtain ⟨n, a⟩ := f
    obtain ⟨_, b⟩ := g
    obtain ⟨rfl, hab⟩ := head
    simp only [putField]
    split
    · exact .cons ⟨rfl, hvw⟩ tail
    · exact .cons ⟨rfl, hab⟩ ih

/-- **Corresponding lists of fields make records of corresponding fields of distinct
names**, even if a name comes twice in them. -/
theorem exists_recordOf {R : Value → Value → Prop} {fs gs : List (String × Value)}
    (h : List.Forall₂ (fun f g => g.1 = f.1 ∧ R f.2 g.2) fs gs) :
    ∃ fs' gs', recordOf fs = record fs' ∧ recordOf gs = record gs' ∧ (fs'.map (·.1)).Nodup ∧
      List.Forall₂ (fun f g => g.1 = f.1 ∧ R f.2 g.2) fs' gs' := by
  suffices hfold : ∀ done done' : List (String × Value), (done.map (·.1)).Nodup →
      List.Forall₂ (fun f g => g.1 = f.1 ∧ R f.2 g.2) done done' →
      ((fs.foldl (fun done f => putField f.1 f.2 done) done).map (·.1)).Nodup ∧
        List.Forall₂ (fun f g => g.1 = f.1 ∧ R f.2 g.2)
          (fs.foldl (fun done f => putField f.1 f.2 done) done)
          (gs.foldl (fun done f => putField f.1 f.2 done) done') by
    obtain ⟨hnodup, hfields⟩ := hfold [] [] List.nodup_nil .nil
    exact ⟨_, _, rfl, rfl, hnodup, hfields⟩
  induction h with
  | nil => exact fun _ _ hnodup hdone => ⟨hnodup, hdone⟩
  | @cons f g fs gs head _ ih =>
    intro done done' hnodup hdone
    obtain ⟨n, a⟩ := f
    obtain ⟨_, b⟩ := g
    obtain ⟨rfl, hab⟩ := head
    simp only [List.foldl_cons]
    exact ih _ _ (nodup_putField hnodup) (putField_forall₂ hab hdone)

/-- A value, unless it is missing. -/
def present? : Value → Option Value
  | missing => none
  | v => some v

theorem getD_present? (v : Value) : v.present?.getD .missing = v := by
  cases v <;> rfl

theorem eq_of_present? {v w : Value} (h : v.present? = some w) : v = w ∧ v ≠ .missing := by
  cases v with
  | missing => cases h
  | _ => exact ⟨Option.some.inj h, nofun⟩

end SborSchema.Value
