/-
# Which variant a node chooses

An enum node chooses the first declared variant of its name, and hands its
fields to the payload of that variant. It is refused if there is none, and if
the variant is a unit while the node has fields.

Key theorems: `Variant.resolve_eq_ok`, `Variant.resolve_eq_error`, `Variant.find?_of_resolve`.
-/
import SborSchema.Schema.Sum

namespace SborSchema.Variant

variable {α : Type} {vs : List (Variant α)} {l : Labels} {id : String} {name : Option String}
  {fields : List Tree} {p : Path}

/-- An enum node is not resolved if no declared variant has its name, or if it has
fields and the first one of its name has none. -/
theorem resolve_eq_error {e : ParseError} (h : resolve vs (.enum l id name fields) p = .error e) :
    ((name.bind fun n => vs.find? (·.name == n)) = none ∧
      e = ⟨.unknownVariant name (vs.map (·.name)), p⟩) ∨
    ∃ v, (name.bind fun n => vs.find? (·.name == n)) = some v ∧ v.payload = none ∧ fields ≠ [] ∧
      e = ⟨.unitPayload v.name fields.length, p⟩ := by
  simp only [resolve] at h
  split at h
  · next hfind => exact .inl ⟨hfind, (Except.error.inj h).symm⟩
  · next v hfind =>
    split at h
    · next hunit =>
      simp only [isUnit, Bool.and_eq_true, Option.isNone_iff_eq_none, Bool.not_eq_eq_eq_not,
        Bool.not_true, List.isEmpty_eq_false_iff] at hunit
      exact .inr ⟨v, hfind, hunit.1, hunit.2, (Except.error.inj h).symm⟩
    · cases h

/-- A resolved variant is the first declared one of the name that the node has. -/
theorem resolve_eq_ok {fields' : List Tree} {v : Variant α}
    (h : resolve vs (.enum l id name fields) p = .ok (v, fields')) :
    (∃ n, name = some n ∧ vs.find? (·.name == n) = some v ∧ v.name = n) ∧ fields' = fields ∧
      (v.payload = none → fields = []) := by
  simp only [resolve] at h
  split at h
  · cases h
  · next w hfind =>
    split at h
    · cases h
    · next hunit =>
      obtain ⟨rfl, rfl⟩ : w = v ∧ fields = fields' := by simpa using h
      obtain ⟨n, rfl, hn⟩ := Option.bind_eq_some_iff.mp hfind
      refine ⟨⟨n, rfl, hn, by simpa using List.find?_some hn⟩, rfl, fun hp => ?_⟩
      simpa [isUnit, hp] using hunit

/-- A resolved variant is the first declared one of its name. -/
theorem find?_of_resolve {t : Tree} {v : Variant α} (h : resolve vs t p = .ok (v, fields)) :
    vs.find? (·.name == v.name) = some v := by
  cases t with
  | enum =>
    obtain ⟨⟨_, -, hn, rfl⟩, -, -⟩ := resolve_eq_ok h
    exact hn
  | leaf | array | map | tuple => cases h

/-- A resolved variant is a declared one, and the fields are the children. -/
theorem mem_of_resolve {t : Tree} {v : Variant α} (h : resolve vs t p = .ok (v, fields)) :
    v ∈ vs ∧ fields = t.children := by
  cases t with
  | enum =>
    obtain ⟨⟨n, -, hn, -⟩, rfl, -⟩ := resolve_eq_ok h
    exact ⟨List.mem_of_find?_eq_some hn, rfl⟩
  | leaf | array | map | tuple => cases h

/-- The first declared variant of the name is resolved if it is a unit and there are no
fields, or if it has a payload. -/
theorem resolve_of_find? {n : String} {v : Variant α}
    (hfind : vs.find? (·.name == n) = some v) (hfields : v.payload = none → fields = []) :
    resolve vs (.enum l id (some n) fields) p = .ok (v, fields) := by
  have hunit : (v.isUnit && !fields.isEmpty) = false := by
    cases hp : v.payload with
    | none => simp [hfields hp]
    | some payload => simp [isUnit, hp]
  simp only [resolve, Option.bind_some, hfind, hunit, Bool.false_eq_true, if_false]

end SborSchema.Variant
