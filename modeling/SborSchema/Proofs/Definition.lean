/-
# The value that a type is read from

The type of a definition stands in the document as a value, which is read once
more before it is read as a type. So no two of its keys are the same, whatever
the document holds: where tags differ by a mark only, the definition is refused.

Key theorems: `Definition.readBodyFields_type`, `Definition.exists_keysDistinct_of_ofBody`.
-/
import SborSchema.Definition.Document
import SborSchema.Proofs.Yaml

namespace SborSchema.Definition

/-- A place is filled with what has been read, unless it was taken. -/
theorem fill_eq_ok {α : Type} {name : String} {place place' : Option α}
    {value : Except BodyFault α} (h : fill name place value = .ok place') :
    ∃ a, value = .ok a ∧ place' = some a := by
  cases place with
  | some _ => cases h
  | none =>
    obtain ⟨a, ha, rfl⟩ := map_eq_ok.mp h
    exact ⟨a, ha, rfl⟩

/-- The value of a type that has been read has distinct keys, however far the fields are read. -/
theorem readBodyFields_type : ∀ {entries : List (Yaml × Yaml)} {f g : BodyFields},
    (∀ z, f.type = some z → z.KeysDistinct) → readBodyFields entries f = .ok g →
    ∀ z, g.type = some z → z.KeysDistinct
  | [], _, _, hf, h => by
    obtain rfl := Except.ok.inj h
    exact hf
  | (key, value) :: entries, f, g, hf, h => by
    rw [readBodyFields] at h
    obtain ⟨name, -, h⟩ := bind_eq_ok.mp h
    split at h
    case h_5 =>
      obtain ⟨place, hplace, h⟩ := bind_eq_ok.mp h
      obtain ⟨z, hz, rfl⟩ := fill_eq_ok hplace
      refine readBodyFields_type (fun z' hz' => ?_) h
      obtain rfl := Option.some.inj hz'
      exact Yaml.keysDistinct_of_reread (mapError_eq_ok.mp hz)
    case h_6 => exact readBodyFields_type hf h
    -- The other fields leave the type as it is.
    all_goals
      obtain ⟨_, -, h⟩ := bind_eq_ok.mp h
      refine readBodyFields_type ?_ h
      exact hf

/-- **The type of a definition is read from a value with distinct keys.** -/
theorem exists_keysDistinct_of_ofBody {name : String} {y : Yaml} {d : Definition}
    (h : ofBody name y = .ok d) : ∃ z : Yaml, z.KeysDistinct ∧ TypeExpr.ofYaml z = .ok d.type := by
  obtain ⟨body, hbody, h⟩ := bind_eq_ok.mp h
  obtain ⟨type, htype, h⟩ := bind_eq_ok.mp h
  obtain rfl := Except.ok.inj h
  refine ⟨body.type, ?_, mapError_eq_ok.mp htype⟩
  obtain ⟨entries, -, hbody⟩ := bind_eq_ok.mp (mapError_eq_ok.mp hbody)
  obtain ⟨f, hf, hbody⟩ := bind_eq_ok.mp hbody
  split at hbody
  · cases hbody
  · cases hbody
  · next hvalue =>
    obtain rfl := Except.ok.inj hbody
    refine readBodyFields_type ?_ hf _ hvalue
    rintro z ⟨⟩

end SborSchema.Definition
