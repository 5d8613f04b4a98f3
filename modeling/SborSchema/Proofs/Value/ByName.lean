/-
# Records as maps from names

The order in which a record holds its fields is that of the type it was parsed
with. Two values are equal by name if they are equal but for these orders, at
any depth: what one record has under a name, the other has too.

Key definitions: `Value.EqByName`.
Key theorems: `Value.EqByName.recordOf`.
-/
import SborSchema.Proofs.Value

namespace SborSchema.Value

/-- Equality of values whose records are maps from names. -/
inductive EqByName : Value → Value → Prop
  | refl (v : Value) : EqByName v v
  | record {fs gs : List (String × Value)}
      (h : ∀ name, Option.Rel EqByName (field? name (.record fs)) (field? name (.record gs))) :
      EqByName (.record fs) (.record gs)
  | tuple {vs ws : List Value} (h : List.Forall₂ EqByName vs ws) :
      EqByName (.tuple vs) (.tuple ws)
  | array {vs ws : List Value} (h : List.Forall₂ EqByName vs ws) :
      EqByName (.array vs) (.array ws)
  | map {es es' : List (Value × Value)}
      (hkeys : List.Forall₂ EqByName (es.map (·.1)) (es'.map (·.1)))
      (hvalues : List.Forall₂ EqByName (es.map (·.2)) (es'.map (·.2))) :
      EqByName (.map es) (.map es')
  | enum {variant : String} {v w : Option Value} (h : Option.Rel EqByName v w) :
      EqByName (.enum variant v) (.enum variant w)
  | option {v w : Option Value} (h : Option.Rel EqByName v w) : EqByName (.option v) (.option w)

/-- Corresponding fields of distinct names make equal records, in whatever order they are put
into them. -/
theorem EqByName.recordOf {fs gs hs : List (String × Value)} (hnodup : (fs.map (·.1)).Nodup)
    (hfields : List.Forall₂ (fun f g => g.1 = f.1 ∧ EqByName f.2 g.2) fs gs)
    (hperm : gs.Perm hs) : EqByName (Value.recordOf fs) (Value.recordOf hs) := by
  have hgs : (gs.map (·.1)).Nodup := by rwa [(forall₂_named_iff.mp hfields).1]
  have hhs : (hs.map (·.1)).Nodup := (hperm.map _).nodup_iff.mp hgs
  rw [recordOf_of_nodup hnodup, recordOf_of_nodup hhs]
  refine .record fun name => ?_
  rw [field?, field?, ← find?_of_perm hgs hperm]
  exact find?_named hfields name

end SborSchema.Value
