/-
# Recursive schemas and their unfoldings

A reference stands below a composite of its owner's body, so on a tree it is
only asked about lower trees (`SchemaTerm.descends`). Each unfolding of the body
therefore uses up a level of the tree: once there are as many as the tree has
levels, what stands in place of the references that are left is never asked,
however owners are nested. So following the references of a recursive schema
comes to an end, and the schema is the only one that equals its own one-step
unfolding (`SchemaTerm.recursive_eq_unfolding`).

Key definitions: `sameness`, `Schema.Descends`.
Key theorems: `sameness_compositional`, `Schema.Descends.recursive_eq`,
`Schema.Descends.eq_recursive`, `SchemaTerm.descends`, `SchemaTerm.sameOn_unfolding`,
`SchemaTerm.recursive_eq_unfolding`.
-/
import SborSchema.Proofs.Schema.Congruence

namespace SborSchema

/-! ### Readings that nothing tells apart -/

/-- The relation of the induction: nothing tells the readings apart. -/
def sameness : TreeRelation := fun t _ s s' => s.SameOn t s'

/-- Composites of parts that nothing tells apart are not told apart either. -/
theorem sameness_compositional :
    Compositional .asIs .asIs sameness sameGated fun ts _ p p' => p.SameOn ts p' where
  congr hs hs' hR := hs.symm.trans (hR.trans hs')
  part hR := hR.gated
  leaf t _ := .refl t _
  map f _ _ hR := hR.map f
  tryMap f _ _ hR := hR.tryMap f
  array hG := Schema.sameOn_array hG
  mapping hk hv := Schema.sameOn_mapping hk hv
  enum hQ := Schema.sameOn_enum hQ
  ofFields hQ := Payload.sameOn_ofFields hQ
  payloadMap f _ _ hQ := hQ.map f
  payloadTryMap f _ _ hQ := hQ.tryMap f
  struct hG := Payload.sameOn_struct hG
  lenientStruct hG := Payload.sameOn_lenientStruct hG
  tuple hG := Payload.sameOn_tuple hG
  fixedStruct hG := Payload.sameOn_fixedStruct hG
  fixedLenientStruct hG := Payload.sameOn_fixedLenientStruct hG
  fixedTuple hG := Payload.sameOn_fixedTuple hG

theorem Refs.related_sameness (t : Tree) : ∀ {Γ : List Type} (γ : Refs Γ),
    Related (sameness t) γ γ
  | _, .nil => .nil
  | _, .cons owner rest => .cons (.refl t owner) (related_sameness t rest)

theorem Refs.relatedBelow_sameness {Γ : List Type} (n : Nat) (γ : Refs Γ) :
    RelatedBelow sameness n γ γ :=
  fun t _ => related_sameness t γ

/-! ### Bodies that descend -/

namespace Schema

variable {α : Type}

/-- Schemas that no tree tells apart are equal. -/
theorem ext_of_sameOn {s s' : Schema α} (h : ∀ t, s.SameOn t s') : s = s' := by
  have hkinds : s.kinds = s'.kinds := (h (.tuple {} [])).kinds
  have hvalidate : s.validate = s'.validate := funext fun t => (h t).validate
  have hparse : s.parse = s'.parse := funext fun t => (h t).parse
  rcases s with ⟨kinds, validate, parse⟩
  simp only at hkinds hvalidate hparse
  rw [hkinds, hvalidate, hparse]

/-- On a tree, the body asks what stands for its references about lower trees only. -/
def Descends (B : Schema α → Schema α) : Prop :=
  ∀ (t : Tree) (s s' : Schema α), (∀ u : Tree, u.height < t.height → s.SameOn u s') →
    (B s).SameOn t (B s')

namespace Descends

variable {B : Schema α → Schema α}

/-- The kinds are not asked for at all: no tree is lower than one without children. -/
theorem kinds_eq (hB : Descends B) (s s' : Schema α) : (B s).kinds = (B s').kinds := by
  refine (hB (.tuple {} []) s s' fun u hu => ?_).kinds
  have := u.height_pos
  simp only [Tree.height, Tree.heightList] at hu
  omega

/-- On a tree, any two unfoldings are the same if there are enough of them. -/
theorem unfold_sameOn (hB : Descends B) (s s' : Schema α) {k k' : Nat} {t : Tree}
    (hk : t.height ≤ k) (hk' : t.height ≤ k') : (unfold B s k).SameOn t (unfold B s' k') :=
  Compositional.unfold (R := sameness) (fun u _ => hB u) s s' k k' t hk hk' (Nat.le_refl _)

/-- On a tree, the recursive schema is any unfolding that is deep enough. -/
theorem recursive_sameOn (hB : Descends B) (s : Schema α) {k : Nat} {t : Tree}
    (hk : t.height ≤ k) : (recursive B).SameOn t (unfold B s k) := by
  obtain ⟨s', k', hk', hsame⟩ :=
    (Solving.cyclic_unfolds t.height).sameOn hB.kinds_eq (Nat.le_refl t.height)
  exact Schema.SameOn.trans hsame (hB.unfold_sameOn s' s hk' hk)

/-- **A recursive schema equals its one-step unfolding.** -/
theorem recursive_eq (hB : Descends B) : recursive B = B (recursive B) := by
  refine ext_of_sameOn fun t => ?_
  have hstep : (B (unfold B detached t.height)).SameOn t (B (recursive B)) :=
    hB t _ _ fun u hu => (hB.recursive_sameOn detached (Nat.le_of_lt hu)).symm
  exact (hB.recursive_sameOn detached (Nat.le_succ t.height)).trans hstep

theorem unfold_eq_self {s : Schema α} (hs : s = B s) : ∀ k, unfold B s k = s
  | 0 => rfl
  | k + 1 => by rw [unfold, unfold_eq_self hs k, ← hs]

/-- **No other schema equals its one-step unfolding.** -/
theorem eq_recursive (hB : Descends B) {s : Schema α} (hs : s = B s) : s = recursive B := by
  refine ext_of_sameOn fun t => ?_
  have hsame := hB.recursive_sameOn s (Nat.le_refl t.height)
  rw [unfold_eq_self hs] at hsame
  exact hsame.symm

end Descends
end Schema

/-! ### Recursive terms -/

namespace SchemaTerm

variable {Δ Γ : List Type} {α : Type}

/-- The body of an owner asks its references about lower trees only. -/
theorem descends (body : SchemaTerm (α :: Δ) Γ α) (δ : Refs Δ) (γ : Refs Γ) :
    Schema.Descends fun self => body.schema (.cons self δ) γ := by
  intro t s s' hlower
  exact body.related sameness_compositional t
    (fun u hu => .cons (hlower u hu) (Refs.related_sameness u δ)) (Refs.relatedBelow_sameness _ γ)

/-- On a tree, a term is read alike whether its owners refer to themselves or are unfolded
as often as the tree is high, with anything in place of the references that are left. -/
theorem sameOn_unfolding (e : SchemaTerm Δ Γ α) (fill : Solving) (δ : Refs Δ) (γ : Refs Γ)
    {t : Tree} {n : Nat} (hn : t.height ≤ n) :
    (e.read .asIs (.unfolding n fill) δ γ).SameOn t (e.schema δ γ) := by
  obtain ⟨m, rfl⟩ : ∃ m, n = m + 1 := ⟨n - 1, by have := t.height_pos; omega⟩
  rw [schema, e.interpret_eq_read]
  exact e.related_read sameness_compositional (Solving.unfolding_unfolds m fill)
    (Solving.cyclic_unfolds (m + 1)) t hn (Refs.relatedBelow_sameness _ δ)
    (Refs.relatedBelow_sameness _ γ)

/-- **A recursive schema is decided by its unfoldings.** On a tree, its kinds, its check and
its parse are those of the schema in which every owner, however nested, is unfolded as often
as the tree is deep, whatever stands in place of the references that are left. It equals its
one-step unfolding, and no other schema does. -/
theorem recursive_eq_unfolding (body : SchemaTerm (α :: Δ) Γ α) (δ : Refs Δ) (γ : Refs Γ) :
    (∀ (fill : Solving) (t : Tree) (n : Nat), t.depth ≤ n →
      ((recursive body).read .asIs (.unfolding n fill) δ γ).kinds =
        ((recursive body).schema δ γ).kinds ∧
      ∀ p, ((recursive body).read .asIs (.unfolding n fill) δ γ).validate t p =
          ((recursive body).schema δ γ).validate t p ∧
        ((recursive body).read .asIs (.unfolding n fill) δ γ).parse t p =
          ((recursive body).schema δ γ).parse t p) ∧
    (recursive body).schema δ γ = body.schema (.cons ((recursive body).schema δ γ) δ) γ ∧
    ∀ s, s = body.schema (.cons s δ) γ → s = (recursive body).schema δ γ := by
  have hbody := body.descends δ γ
  have hschema : (recursive body).schema δ γ =
      Schema.recursive fun self => body.schema (.cons self δ) γ := by
    rw [schema, interpret]
    rfl
  refine ⟨fun fill t n hn => ?_, ?_, fun s hs => ?_⟩
  · rw [t.depth_eq_height] at hn
    have hsame := (recursive body).sameOn_unfolding fill δ γ hn
    exact ⟨hsame.kinds, fun p => ⟨congrFun hsame.validate p, congrFun hsame.parse p⟩⟩
  · rw [hschema]
    exact hbody.recursive_eq
  · rw [hschema]
    exact hbody.eq_recursive hs

/-- Counts the nodes of arrays of maps, whose keys are such maps again and whose values are
such arrays: an owner inside another. Three unfoldings of each are enough for three levels. -/
theorem recursive_eq_unfolding_nested : ∃ (body : SchemaTerm [Nat] [] Nat) (t : Tree),
    t.depth ≤ 3 ∧ ((recursive body).schema .nil .nil).parse t .root = .ok 4 ∧
    ∃ s, s = body.schema (.cons s .nil) .nil ∧ s = (recursive body).schema .nil .nil := by
  have hdepth : (Tree.array {} .map
      [.map {} .map .array [(.map {} .map .array [], .array {} .map [])]]).depth ≤ 3 := by
    rw [Tree.depth_eq_height]
    decide
  have hparse : ((recursive (.map (List.foldl (· + ·) 1) (.array (.recursive
      (.map (List.foldl (fun n e => n + e.1 + e.2) 1)
        (.mapping (.reference .here) (.reference (.there .here)))))) :
          SchemaTerm [Nat] [] Nat)).read .asIs (.unfolding 3 fun _ _ => Schema.detached)
      .nil .nil).parse (.array {} .map
        [.map {} .map .array [(.map {} .map .array [], .array {} .map [])]]) .root = .ok 4 := by
    rfl
  obtain ⟨hunfold, hstep, hunique⟩ := recursive_eq_unfolding (.map (List.foldl (· + ·) 1)
    (.array (.recursive (.map (List.foldl (fun n e => n + e.1 + e.2) 1)
      (.mapping (.reference .here) (.reference (.there .here)))))) :
        SchemaTerm [Nat] [] Nat) .nil .nil
  have hsame := ((hunfold (fun _ _ => Schema.detached) _ 3 hdepth).2 .root).2
  exact ⟨_, _, hdepth, hsame.symm.trans hparse, _, hstep, hunique _ hstep⟩

end SchemaTerm
end SborSchema
