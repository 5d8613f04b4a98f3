/-
# The limit of depth

A tree is measured before it is parsed, and one that is deeper than the limit is
refused at the root. The measuring is a loop over a stack, which visits the
nodes in an order of its own; it ends, and what it finds is the nesting depth. No
schema refuses a tree for its depth on its own account, however it is built:
composites and conversions have other causes (`SchemaTerm.run_ne_depthExceeded`).
So such a refusal always comes from the limit, and a parse within the limit is a
parse without one (`runWithin_depth`).

Key theorems: `SchemaTerm.run_ne_depthExceeded`, `Schema.runWithin_of_le`, `runWithin_depth`.
-/
import SborSchema.Proofs.Schema.Detachment
import SborSchema.Proofs.Tree.Depth

namespace SborSchema

variable {Γ : List Type} {α : Type}

/-! ### Refusals for depth -/

theorem Cause.foreign_of_kind {c : Cause} (h : c.kind = .depthExceeded) : c.Foreign := by
  cases c with
  | depthExceeded depth limit => exact trivial
  | _ => cases h

/-- The first of two outcomes that meet is no refusal for depth. -/
theorem Meets.ne_depthExceeded {γ : Refs Γ} {x y : Except ParseError α} {err : ParseError}
    (h : Meets γ x y) (hx : x = .error err) : err.cause.kind ≠ .depthExceeded := by
  intro hkind
  cases h with
  | same hsame => exact hsame err hx (Cause.foreign_of_kind hkind)
  | met =>
    obtain rfl := Except.error.inj hx
    cases hkind

/-- **No schema refuses a tree for its depth.** -/
theorem SchemaTerm.run_ne_depthExceeded (e : SchemaTerm [] Γ α) {t : Tree} {err : ParseError}
    (h : (e.schema .nil .detached).run t = .error err) : err.cause.kind ≠ .depthExceeded :=
  (e.meets_run .detached t).ne_depthExceeded h

/-! ### Parsing within a limit -/

namespace Schema

variable {s : Schema α} {limit : Nat} {t : Tree}

theorem runWithin_of_le (h : t.height ≤ limit) : s.runWithin limit t = s.run t := by
  rw [runWithin, t.depth_eq_height, if_neg (by omega)]

theorem runWithin_of_lt (h : limit < t.height) :
    s.runWithin limit t = .error ⟨.depthExceeded t.height limit, Path.root⟩ := by
  rw [runWithin, t.depth_eq_height, if_pos h]

end Schema

/-- **The limit refuses exactly the trees that nest deeper.** The loop over a stack of nodes ends
after as many rounds as the tree has nodes, and then it has found the depth. This is the height of
the tree: 1 if it has no children, and otherwise 1 more than the height of its highest child,
where the children of a map are all its keys and values. Every schema is run on trees up to
the limit as without one; it refuses a tree for its depth exactly if the height is above the
limit, and then the refusal is at the root and names both. -/
theorem runWithin_depth :
    (∀ (t : Tree) (n : Nat), (Tree.visit^[n] ([(t, 1)], 0)).1 = [] ↔ t.size ≤ n) ∧
    (∀ t : Tree, Tree.visit^[t.size] ([(t, 1)], 0) = ([], t.depth) ∧ t.depth = t.height ∧
      (t.children = [] → t.height = 1) ∧
      (t.children ≠ [] →
        ∃ u ∈ t.children, t.height = 1 + u.height ∧ ∀ v ∈ t.children, v.height ≤ u.height)) ∧
    (∀ (l : Labels) (keyKind valueKind : Kind) (entries : List (Tree × Tree)) (u : Tree),
      u ∈ (Tree.map l keyKind valueKind entries).children ↔ ∃ e ∈ entries, u = e.1 ∨ u = e.2) ∧
    ∀ {Γ : List Type} {α : Type} (e : SchemaTerm [] Γ α) (limit : Nat) (t : Tree),
      let s := e.schema .nil .detached
      (∀ err, s.runWithin limit t = .error err ∧ err.cause.kind = .depthExceeded ↔
        limit < t.height ∧ err = ⟨.depthExceeded t.height limit, Path.root⟩) ∧
      (t.height ≤ limit → s.runWithin limit t = s.run t) := by
  refine ⟨Tree.iterate_visit_eq_nil_iff, fun t => ?_, fun l keyKind valueKind entries u => ?_, ?_⟩
  · refine ⟨t.iterate_visit, t.depth_eq_height, fun hnone => ?_, fun hsome => ?_⟩
    · rw [Tree.height_eq, hnone]
      rfl
    · obtain ⟨u, hu, hheight, hmax⟩ := Tree.exists_highest hsome
      exact ⟨u, hu, by rw [Tree.height_eq, hheight], hmax⟩
  · rw [Tree.children, List.mem_flatMap]
    simp only [List.mem_cons, List.not_mem_nil, or_false]
  · intro Γ α e limit t s
    refine ⟨fun err => ?_, Schema.runWithin_of_le⟩
    rcases Nat.lt_or_ge limit t.height with hdeep | hdeep
    · rw [Schema.runWithin_of_lt hdeep, Except.error.injEq]
      constructor
      · rintro ⟨rfl, -⟩
        exact ⟨hdeep, rfl⟩
      · rintro ⟨-, rfl⟩
        exact ⟨rfl, rfl⟩
    · rw [Schema.runWithin_of_le hdeep]
      constructor
      · rintro ⟨herr, hkind⟩
        exact absurd hkind (e.run_ne_depthExceeded herr)
      · rintro ⟨hlt, -⟩
        omega

/-- The value of an entry nests deeper than the key: a map of three levels is parsed within three,
and refused within two. A leaf has one level. -/
theorem runWithin_depth_map :
    let flag : Tree := .leaf {} (.bool true)
    let flags : Tree := .array {} .bool [flag]
    let t : Tree := .map {} .bool .array [(flag, flags)]
    let s := (SchemaTerm.leaf .value : SchemaTerm [] [] Tree).schema .nil .detached
    flag.children = [] ∧ flag.height = 1 ∧ t.children ≠ [] ∧
      (∃ u ∈ t.children, t.height = 1 + u.height ∧ ∀ v ∈ t.children, v.height ≤ u.height) ∧
      t.height = 3 ∧ s.runWithin 3 t = s.run t ∧
      s.runWithin 2 t = .error ⟨.depthExceeded 3 2, Path.root⟩ := by
  intro flag flags t s
  obtain ⟨-, hdepth, -, hlimit⟩ := runWithin_depth
  obtain ⟨-, -, hleaf, -⟩ := hdepth flag
  obtain ⟨-, -, -, hnode⟩ := hdepth t
  have hchildren : t.children ≠ [] := List.cons_ne_nil flag [flags]
  have hheight : t.height = 3 := by decide
  obtain ⟨hdeep, -⟩ := hlimit (SchemaTerm.leaf .value : SchemaTerm [] [] Tree) 2 t
  obtain ⟨-, hwithin⟩ := hlimit (SchemaTerm.leaf .value : SchemaTerm [] [] Tree) 3 t
  have hrefused := ((hdeep ⟨.depthExceeded 3 2, Path.root⟩).mpr ⟨by omega, by rw [hheight]⟩).1
  exact ⟨rfl, hleaf rfl, hchildren, hnode hchildren, hheight, hwithin (by omega), hrefused⟩

end SborSchema
