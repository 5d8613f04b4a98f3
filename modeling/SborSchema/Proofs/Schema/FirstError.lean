/-
# Where a parse fails

A composite that fails either refuses its own node, or hands on the error of
one of its parts, at the path of the part. Here this is read off the walk of
each composite: a failed walk over children has stopped at a child that the
schema of its place refuses.

Key theorems: `Schema.parseElements_eq_error`, `Schema.parseEntries_eq_error`,
`Schema.enum_eq_error`, `Payload.struct_eq_error`, `Payload.lenientStruct_eq_error`,
`Payload.tuple_eq_error`.
-/
import SborSchema.Proofs.Outcome
import SborSchema.Schema.Repeated
import SborSchema.Schema.Sum

namespace SborSchema

variable {α κ ν : Type} {e : ParseError} {p : Path}

namespace Schema

/-- Behind the gate, a schema fails for the kind of the node or in its parse. -/
theorem parseGated_eq_error {s : Schema α} {t : Tree} (h : s.parseGated t p = .error e) :
    (s.kinds.contains t.kind = false ∧ e = wrongKind s.kinds t p) ∨
      (s.kinds.contains t.kind = true ∧ s.parse t p = .error e) := by
  simp only [parseGated, gate] at h
  cases hc : s.kinds.contains t.kind with
  | true =>
    rw [hc] at h
    exact .inr ⟨rfl, h⟩
  | false =>
    rw [hc] at h
    exact .inl ⟨rfl, (Except.error.inj h).symm⟩

theorem parseElements_eq_error {s : Schema α} : ∀ {ts : List Tree} {i : Nat},
    parseElements s ts i p = .error e →
    ∃ j t, ts[j]? = some t ∧ s.parseGated t (p.index (i + j)) = .error e
  | [], _, h => nomatch h
  | t :: ts, i, h => by
    obtain h | ⟨a, -, h⟩ := bind_eq_error.mp h
    · exact ⟨0, t, rfl, h⟩
    obtain h | ⟨values, -, h⟩ := bind_eq_error.mp h
    · obtain ⟨j, u, hu, hfail⟩ := parseElements_eq_error h
      refine ⟨j + 1, u, hu, ?_⟩
      rwa [Nat.add_right_comm] at hfail
    · cases h

theorem parseEntries_eq_error {key : Schema κ} {value : Schema ν} :
    ∀ {entries : List (Tree × Tree)} {i : Nat}, parseEntries key value entries i p = .error e →
    ∃ j entry, entries[j]? = some entry ∧ (key.parseGated entry.1 (p.index (i + j)) = .error e ∨
      value.parseGated entry.2 (p.index (i + j)) = .error e)
  | [], _, h => nomatch h
  | (k, v) :: entries, i, h => by
    obtain h | ⟨a, -, h⟩ := bind_eq_error.mp h
    · exact ⟨0, (k, v), rfl, .inl h⟩
    obtain h | ⟨b, -, h⟩ := bind_eq_error.mp h
    · exact ⟨0, (k, v), rfl, .inr h⟩
    obtain h | ⟨rest, -, h⟩ := bind_eq_error.mp h
    · obtain ⟨j, entry, hentry, hfail⟩ := parseEntries_eq_error h
      refine ⟨j + 1, entry, hentry, ?_⟩
      rwa [Nat.add_right_comm] at hfail
    · cases h

end Schema

/-! ### Enums -/

/-- A failed enum has not resolved its variant, or its payload has refused the fields. -/
theorem Schema.enum_eq_error {vs : List (Variant α)} {t : Tree}
    (h : (Schema.enum vs).parse t p = .error e) :
    Variant.resolve vs t p = .error e ∨
      ∃ v fields payload, Variant.resolve vs t p = .ok (v, fields) ∧ v.payload = some payload ∧
        payload.parseFields fields (p.field v.name) = .error e := by
  obtain h | ⟨⟨v, fields⟩, hr, h⟩ := bind_eq_error.mp h
  · exact .inl h
  · cases hp : v.payload with
    | none =>
      simp only [hp] at h
      cases h
    | some payload =>
      simp only [hp] at h
      obtain h | ⟨a, -, h⟩ := bind_eq_error.mp h
      · exact .inr ⟨v, fields, payload, hr, hp, h⟩
      · cases h

/-! ### Structs and tuples -/

namespace Payload

variable {children : List Tree} {fields : List (String × Schema α)}

theorem checkMissing_eq_error (h : checkMissing fields children p = .error e) :
    missingNames fields children ≠ [] ∧ e = ⟨.missingFields (missingNames fields children), p⟩ := by
  simp only [checkMissing] at h
  split at h
  · cases h
  · next hne => exact ⟨hne, (Except.error.inj h).symm⟩

theorem checkMissing_eq_ok (h : checkMissing fields children p = .ok ()) :
    ∀ f ∈ fields, Tree.child? f.1 children ≠ none := by
  simp only [checkMissing] at h
  split at h
  · next hnil =>
    intro f hf hc
    have hmem := List.filter_eq_nil_iff.mp hnil f.1 (List.mem_map_of_mem hf)
    exact hmem (Option.isNone_iff_eq_none.mpr hc)
  · cases h

theorem parseRequired_eq_error : ∀ {fields : List (String × Schema α)},
    (∀ f ∈ fields, Tree.child? f.1 children ≠ none) → parseRequired fields children p = .error e →
    ∃ f ∈ fields, ∃ t, Tree.child? f.1 children = some t ∧
      f.2.parseGated t (p.field f.1) = .error e
  | [], _, h => nomatch h
  | (name, s) :: fields, hfound, h => by
    simp only [parseRequired] at h
    cases hc : Tree.child? name children with
    | none => exact absurd hc (hfound _ List.mem_cons_self)
    | some t =>
      simp only [hc] at h
      obtain h | ⟨a, -, h⟩ := bind_eq_error.mp h
      · exact ⟨(name, s), List.mem_cons_self, t, hc, h⟩
      obtain h | ⟨values, -, h⟩ := bind_eq_error.mp h
      · obtain ⟨f, hf, found⟩ :=
          parseRequired_eq_error (fun g hg => hfound g (List.mem_cons_of_mem _ hg)) h
        exact ⟨f, List.mem_cons_of_mem _ hf, found⟩
      · cases h

theorem parsePresent_eq_error : ∀ {fields : List (String × Schema α)},
    parsePresent fields children p = .error e →
    ∃ f ∈ fields, ∃ t, Tree.child? f.1 children = some t ∧
      f.2.parseGated t (p.field f.1) = .error e
  | [], h => nomatch h
  | (name, s) :: fields, h => by
    have later (h : parsePresent fields children p = .error e) :
        ∃ f ∈ (name, s) :: fields, ∃ t, Tree.child? f.1 children = some t ∧
          f.2.parseGated t (p.field f.1) = .error e := by
      obtain ⟨f, hf, found⟩ := parsePresent_eq_error h
      exact ⟨f, List.mem_cons_of_mem _ hf, found⟩
    simp only [parsePresent] at h
    cases hc : Tree.child? name children with
    | none =>
      simp only [hc] at h
      obtain h | ⟨values, -, h⟩ := bind_eq_error.mp h
      · exact later h
      · cases h
    | some t =>
      simp only [hc] at h
      obtain h | ⟨a, -, h⟩ := bind_eq_error.mp h
      · exact ⟨(name, s), List.mem_cons_self, t, hc, h⟩
      obtain h | ⟨values, -, h⟩ := bind_eq_error.mp h
      · exact later h
      · cases h

/-- A failed struct misses declared fields, or the schema of a field refuses the first
child of its name. -/
theorem struct_eq_error (h : (struct fields).parseFields children p = .error e) :
    (missingNames fields children ≠ [] ∧
      e = ⟨.missingFields (missingNames fields children), p⟩) ∨
    ∃ f ∈ fields, ∃ t, Tree.child? f.1 children = some t ∧
      f.2.parseGated t (p.field f.1) = .error e := by
  obtain h | ⟨_, hok, h⟩ := bind_eq_error.mp h
  · exact .inl (checkMissing_eq_error h)
  · exact .inr (parseRequired_eq_error (checkMissing_eq_ok hok) h)

theorem lenientStruct_eq_error (h : (lenientStruct fields).parseFields children p = .error e) :
    ∃ f ∈ fields, ∃ t, Tree.child? f.1 children = some t ∧
      f.2.parseGated t (p.field f.1) = .error e :=
  parsePresent_eq_error h

theorem checkArity_eq_error {declared : Nat} (h : checkArity declared children p = .error e) :
    children.length ≠ declared ∧ e = ⟨.arityMismatch declared children.length, p⟩ := by
  simp only [checkArity] at h
  split at h
  · cases h
  · next hne => exact ⟨hne, (Except.error.inj h).symm⟩

theorem parseEach_eq_error : ∀ {ss : List (Schema α)} {ts : List Tree} {i : Nat},
    parseEach ss ts i p = .error e →
    ∃ (j : Nat) (s : Schema α) (t : Tree), ss[j]? = some s ∧ ts[j]? = some t ∧
      s.parseGated t (p.index (i + j)) = .error e
  | [], _, _, h => nomatch h
  | _ :: _, [], _, h => nomatch h
  | s :: ss, t :: ts, i, h => by
    obtain h | ⟨a, -, h⟩ := bind_eq_error.mp h
    · exact ⟨0, s, t, rfl, rfl, h⟩
    obtain h | ⟨values, -, h⟩ := bind_eq_error.mp h
    · obtain ⟨j, s', u, hs, hu, hfail⟩ := parseEach_eq_error h
      refine ⟨j + 1, s', u, hs, hu, ?_⟩
      rwa [Nat.add_right_comm] at hfail
    · cases h

/-- A failed tuple has another number of children, or the schema of a place refuses the
child at its position. -/
theorem tuple_eq_error {ss : List (Schema α)}
    (h : (tuple ss).parseFields children p = .error e) :
    (children.length ≠ ss.length ∧ e = ⟨.arityMismatch ss.length children.length, p⟩) ∨
      ∃ (i : Nat) (s : Schema α) (t : Tree), ss[i]? = some s ∧ children[i]? = some t ∧
        s.parseGated t (p.index i) = .error e := by
  obtain h | ⟨_, -, h⟩ := bind_eq_error.mp h
  · exact .inl (checkArity_eq_error h)
  · obtain ⟨j, s, t, hs, ht, hfail⟩ := parseEach_eq_error h
    rw [Nat.zero_add] at hfail
    exact .inr ⟨j, s, t, hs, ht, hfail⟩

end Payload

/-- The payload of a chosen option has one child, which the schema of the option reads. -/
theorem Payload.fixedTuple_one_eq_error {s : Schema α} {children : List Tree}
    (h : (fixedTuple (.cons s .nil)).parseFields children p = .error e) :
    (children.length ≠ 1 ∧ e = ⟨.arityMismatch 1 children.length, p⟩) ∨
      ∃ t, children = [t] ∧ s.parseGated t (p.index 0) = .error e := by
  obtain h | ⟨_, harity, h⟩ := bind_eq_error.mp h
  · exact .inl (checkArity_eq_error h)
  · cases children with
    | nil => cases harity
    | cons t rest =>
      cases rest with
      | nil =>
        obtain h | ⟨a, -, h⟩ := bind_eq_error.mp h
        · exact .inr ⟨t, rfl, h⟩
        · cases h
      | cons => cases harity

end SborSchema
