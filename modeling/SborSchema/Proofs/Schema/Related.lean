/-
# Relations that respect how schemas are built

Facts about all schemas are proved by induction on how a schema is built. The
induction is written here once, for a relation `R t s s'` between two schemas
on a tree `t`. If the relation holds on leaves, passes through the adapters,
and holds for a composite on a tree when it holds for the parts on the children
(`Compositional`), then it holds for any two readings of one term whose
references are related (`SchemaTerm.related_read`). Recursive schemas need no
condition of their own: an owner is its body unfolded at least as often as the
tree has levels (`Solving.Unfolds`), and each unfolding is used on lower trees
only.

Key definitions: `TreeRelation`, `Compositional`, `Refs.Related`, `Solving.Unfolds`.
Key theorems: `Schema.option_eq_map_enum`, `Compositional.solve`, `SchemaTerm.related_read`,
`SchemaTerm.related`, `PayloadTerm.related`.
-/
import Mathlib.Data.List.Forall2
import SborSchema.Proofs.Schema.Reading
import SborSchema.Proofs.Tree.Depth

namespace SborSchema

/-- An option is the enum of its two variants, without the name of the variant. -/
theorem Schema.option_eq_map_enum {α : Type} (inner : Schema α) :
    Schema.option inner = (Schema.enum (optionVariants inner)).map Choice.value := by
  have hparse : (Schema.option inner).parse =
      fun t p => ((Schema.enum (optionVariants inner)).parse t p).map Choice.value := by
    funext t p
    simp only [Schema.option]
    cases (Schema.enum (optionVariants inner)).parse t p <;> rfl
  simp only [Schema.option, Schema.map] at hparse ⊢
  rw [hparse]

/-- Applying a function to what is parsed does not change what the gate does. -/
theorem Schema.map_parseGated {α β : Type} (f : α → β) (s : Schema α) (t : Tree) (p : Path) :
    (s.map f).parseGated t p = (s.parseGated t p).map f := by
  change (s.gate t p >>= fun _ => (s.parse t p).map f) =
    (s.gate t p >>= fun _ => s.parse t p).map f
  cases s.gate t p <;> rfl

/-! ### Children -/

namespace Tree

theorem mem_of_child? {name : String} {ts : List Tree} {t : Tree}
    (h : child? name ts = some t) : t ∈ ts :=
  List.mem_of_find?_eq_some h

/-- The key and the value of an entry are children of the map. -/
theorem mem_children_of_mem_entries {entries : List (Tree × Tree)} {e : Tree × Tree}
    (he : e ∈ entries) (l : Labels) (keyKind valueKind : Kind) :
    e.1 ∈ (map l keyKind valueKind entries).children ∧
      e.2 ∈ (map l keyKind valueKind entries).children :=
  ⟨List.mem_flatMap.mpr ⟨e, he, by simp⟩, List.mem_flatMap.mpr ⟨e, he, by simp⟩⟩

end Tree

/-! ### Relations -/

/-- A relation between two schemas of one type on a tree. -/
abbrev TreeRelation := Tree → ∀ {α : Type}, Schema α → Schema α → Prop

/-- A relation between two payloads of one type on a list of fields. -/
abbrev FieldsRelation := List Tree → ∀ {α : Type}, Payload α → Payload α → Prop

/-- Related on every tree of a list. -/
def TreeRelation.OnAll (R : TreeRelation) (ts : List Tree) {α : Type} (s s' : Schema α) : Prop :=
  ∀ t ∈ ts, R t s s'

/-- Fields of one name whose schemas are related. -/
def Schema.FieldRelated {α : Type} (P : Schema α → Schema α → Prop)
    (f f' : String × Schema α) : Prop :=
  f.1 = f'.1 ∧ P f.2 f'.2

/-- Variants of one name, either without payloads or with related ones. -/
inductive Variant.Related {α : Type} (Q : Payload α → Payload α → Prop) :
    Variant α → Variant α → Prop
  | unit (name : String) : Related Q (.unit name) (.unit name)
  | new (name : String) {p p' : Payload α} (head : Q p p') : Related Q (.new name p) (.new name p')

/-- Places whose schemas are related one by one. -/
inductive Places.Related (P : ∀ {α : Type}, Schema α → Schema α → Prop) :
    ∀ {α : Type}, Places α → Places α → Prop
  | nil : Related @P .nil .nil
  | cons {α β : Type} {s s' : Schema α} {places places' : Places β} (head : P s s')
      (tail : Related @P places places') : Related @P (.cons s places) (.cons s' places')

/-- Named places of the same names whose schemas are related one by one. -/
inductive NamedPlaces.Related (P : ∀ {α : Type}, Schema α → Schema α → Prop) :
    ∀ {α β : Type}, NamedPlaces α β → NamedPlaces α β → Prop
  | nil : Related @P .nil .nil
  | cons {α β γ : Type} (name : String) {s s' : Schema α} {places places' : NamedPlaces β γ}
      (head : P s s') (tail : Related @P places places') :
      Related @P (.cons name s places) (.cons name s' places')

/-- References that are read as related schemas. -/
inductive Refs.Related (P : ∀ {α : Type}, Schema α → Schema α → Prop) :
    ∀ {Γ : List Type}, Refs Γ → Refs Γ → Prop
  | nil : Related @P .nil .nil
  | cons {Γ : List Type} {α : Type} {s s' : Schema α} {γ γ' : Refs Γ} (head : P s s')
      (tail : Related @P γ γ') : Related @P (.cons s γ) (.cons s' γ')

/-- Two schemas that nothing tells apart on a tree. -/
structure Schema.SameOn {α : Type} (t : Tree) (s s' : Schema α) : Prop where
  kinds : s.kinds = s'.kinds
  validate : s.validate t = s'.validate t
  parse : s.parse t = s'.parse t

namespace Schema.SameOn

variable {α : Type} {t : Tree} {s s' s'' : Schema α}

theorem refl (t : Tree) (s : Schema α) : s.SameOn t s := ⟨rfl, rfl, rfl⟩

theorem symm (h : s.SameOn t s') : s'.SameOn t s :=
  ⟨h.kinds.symm, h.validate.symm, h.parse.symm⟩

theorem trans (h : s.SameOn t s') (h' : s'.SameOn t s'') : s.SameOn t s'' :=
  ⟨h.kinds.trans h'.kinds, h.validate.trans h'.validate, h.parse.trans h'.parse⟩

end Schema.SameOn

/-- A relation that respects how schemas are built. `R` relates schemas, `G` the
schemas of parts as composites handle them, by `h` on the one side and by `h'` on
the other, and `Q` relates payloads on the fields they read. -/
structure Compositional (h h' : Handling) (R G : TreeRelation) (Q : FieldsRelation) : Prop where
  /-- Only what a schema does on the tree counts. -/
  congr {t : Tree} {α : Type} {s₁ s₂ s₁' s₂' : Schema α} (hs : s₁.SameOn t s₂)
    (hs' : s₁'.SameOn t s₂') (hR : R t s₁ s₁') : R t s₂ s₂'
  part {t : Tree} {α : Type} {s s' : Schema α} (hR : R t s s') : G t (h α s) (h' α s')
  leaf (t : Tree) (l : LeafType) : R t l.plain l.plain
  map {t : Tree} {α β : Type} (f : α → β) {s s' : Schema α} (hR : R t s s') :
    R t (s.map f) (s'.map f)
  tryMap {t : Tree} {α β : Type} (f : α → Except String β) {s s' : Schema α} (hR : R t s s') :
    R t (s.tryMap f) (s'.tryMap f)
  array {t : Tree} {α : Type} {s s' : Schema α} (hG : G.OnAll t.children s s') :
    R t (.array s) (.array s')
  mapping {t : Tree} {κ ν : Type} {k k' : Schema κ} {v v' : Schema ν}
    (hk : G.OnAll t.children k k') (hv : G.OnAll t.children v v') :
    R t (.mapping k v) (.mapping k' v')
  enum {t : Tree} {α : Type} {vs vs' : List (Variant α)}
    (hQ : List.Forall₂ (Variant.Related (Q t.children)) vs vs') : R t (.enum vs) (.enum vs')
  ofFields {t : Tree} {α : Type} {v v' : List Tree → Path → Except ParseError Unit}
    {f f' : List Tree → Path → Except ParseError α}
    (hQ : Q t.children (.ofFields v f) (.ofFields v' f')) :
    R t (Payload.ofFields v f).toSchema (Payload.ofFields v' f').toSchema
  payloadMap {ts : List Tree} {α β : Type} (f : α → β) {p p' : Payload α} (hQ : Q ts p p') :
    Q ts (p.map f) (p'.map f)
  payloadTryMap {ts : List Tree} {α β : Type} (f : α → Except String β) {p p' : Payload α}
    (hQ : Q ts p p') : Q ts (p.tryMap f) (p'.tryMap f)
  struct {ts : List Tree} {α : Type} {fs fs' : List (String × Schema α)}
    (hG : List.Forall₂ (Schema.FieldRelated (G.OnAll ts)) fs fs') :
    Q ts (.struct fs) (.struct fs')
  lenientStruct {ts : List Tree} {α : Type} {fs fs' : List (String × Schema α)}
    (hG : List.Forall₂ (Schema.FieldRelated (G.OnAll ts)) fs fs') :
    Q ts (.lenientStruct fs) (.lenientStruct fs')
  tuple {ts : List Tree} {α : Type} {ss ss' : List (Schema α)}
    (hG : List.Forall₂ (G.OnAll ts) ss ss') : Q ts (.tuple ss) (.tuple ss')
  fixedStruct {ts : List Tree} {α β : Type} {ps ps' : NamedPlaces α β}
    (hG : NamedPlaces.Related (G.OnAll ts) ps ps') : Q ts (.fixedStruct ps) (.fixedStruct ps')
  fixedLenientStruct {ts : List Tree} {α β : Type} {ps ps' : NamedPlaces α β}
    (hG : NamedPlaces.Related (G.OnAll ts) ps ps') :
    Q ts (.fixedLenientStruct ps) (.fixedLenientStruct ps')
  fixedTuple {ts : List Tree} {α : Type} {ps ps' : Places α}
    (hG : Places.Related (G.OnAll ts) ps ps') : Q ts (.fixedTuple ps) (.fixedTuple ps')

/-! ### References -/

namespace Refs

variable {P : ∀ {α : Type}, Schema α → Schema α → Prop} {Γ Δ : List Type}

theorem Related.get {α : Type} : ∀ {Γ : List Type} {γ γ' : Refs Γ}, Related @P γ γ' →
    ∀ x : Ref Γ α, P (γ.get x) (γ'.get x)
  | _, _, _, .cons head _, .here => head
  | _, _, _, .cons _ tail, .there x => tail.get x

theorem Related.append {γ γ' : Refs Γ} (hγ : Related @P γ γ') : ∀ {Δ : List Type}
    {δ δ' : Refs Δ}, Related @P δ δ' → Related @P (δ.append γ) (δ'.append γ')
  | _, _, _, .nil => hγ
  | _, _, _, .cons head tail => .cons head (append hγ tail)

/-- References related on every tree lower than `n`. -/
def RelatedBelow (R : TreeRelation) (n : Nat) (γ γ' : Refs Γ) : Prop :=
  ∀ t : Tree, t.height < n → Related (R t) γ γ'

theorem RelatedBelow.nil {R : TreeRelation} {n : Nat} : RelatedBelow R n .nil .nil :=
  fun _ _ => .nil

theorem RelatedBelow.mono {R : TreeRelation} {m n : Nat} {γ γ' : Refs Γ}
    (h : RelatedBelow R n γ γ') (hmn : m ≤ n) : RelatedBelow R m γ γ' :=
  fun t ht => h t (Nat.lt_of_lt_of_le ht hmn)

theorem RelatedBelow.append {R : TreeRelation} {n : Nat} {δ δ' : Refs Δ} {γ γ' : Refs Γ}
    (hδ : RelatedBelow R n δ δ') (hγ : RelatedBelow R n γ γ') :
    RelatedBelow R n (δ.append γ) (δ'.append γ') :=
  fun t ht => (hγ t ht).append (hδ t ht)

end Refs

/-! ### Owners -/

/-- On trees that are at most `n` high, an owner is its body put around itself at least as
often as the tree is high. -/
structure Solving.Unfolds (n : Nat) (σ : Solving) : Prop where
  keepsKinds : σ.KeepsKinds
  sameOn {α : Type} {B : Schema α → Schema α} (hB : ∀ s s', (B s).kinds = (B s').kinds)
    {t : Tree} (ht : t.height ≤ n) :
    ∃ s k, t.height ≤ k ∧ (σ α B).SameOn t (Schema.unfold B s k)

/-- An owner that refers to itself is unfolded as often as the tree is high. -/
theorem Solving.cyclic_unfolds (n : Nat) : Solving.cyclic.Unfolds n where
  keepsKinds := cyclic_keepsKinds
  sameOn {α B} hB {t} _ := by
    obtain ⟨k, hk⟩ : ∃ k, t.height = k + 1 := ⟨t.height - 1, by have := t.height_pos; omega⟩
    refine ⟨Schema.detached, k + 1, Nat.le_of_eq hk, hB _ _, ?_, ?_⟩ <;> funext p <;>
      simp only [Solving.cyclic, Schema.recursive, t.depth_eq_height, hk]

/-- Unfolding often enough serves all trees up to that height. -/
theorem Solving.unfolding_unfolds (n : Nat) (fill : Solving) :
    (Solving.unfolding (n + 1) fill).Unfolds (n + 1) where
  keepsKinds := unfolding_keepsKinds n fill
  sameOn {α B} _ {t} ht := ⟨fill α B, n + 1, ht, .refl t _⟩

/-! ### The induction -/

namespace Compositional

variable {h h' : Handling} {R G : TreeRelation} {Q : FieldsRelation} {α : Type}

/-- On a tree, unfoldings of related bodies are related, if there are as many of them as
the tree is high. What is innermost does not matter. -/
theorem unfold {B B' : Schema α → Schema α} {n : Nat}
    (hbody : ∀ u : Tree, u.height ≤ n → ∀ s s' : Schema α,
      (∀ w : Tree, w.height < u.height → R w s s') → R u (B s) (B' s')) (s s' : Schema α) :
    ∀ (k k' : Nat) (u : Tree), u.height ≤ k → u.height ≤ k' → u.height ≤ n →
      R u (Schema.unfold B s k) (Schema.unfold B' s' k')
  | 0, _, u, hk, _, _ => absurd u.height_pos (by omega)
  | _, 0, u, _, hk', _ => absurd u.height_pos (by omega)
  | k + 1, k' + 1, u, hk, hk', hn =>
    hbody u hn _ _ fun w hw => unfold hbody s s' k k' w (by omega) (by omega) (by omega)

/-- Owners are related if their bodies are, below the tree at hand. -/
theorem solve (C : Compositional h h' R G Q) {σ σ' : Solving} {B B' : Schema α → Schema α}
    {n : Nat} {t : Tree} (hσ : σ.Unfolds n) (hσ' : σ'.Unfolds n) (ht : t.height ≤ n)
    (hbody : ∀ u : Tree, u.height ≤ t.height → ∀ s s' : Schema α,
      (∀ w : Tree, w.height < u.height → R w s s') → R u (B s) (B' s'))
    (hB : ∀ s s', (B s).kinds = (B s').kinds) (hB' : ∀ s s', (B' s).kinds = (B' s').kinds) :
    R t (σ α B) (σ' α B') := by
  obtain ⟨s, k, hk, hs⟩ := hσ.sameOn hB ht
  obtain ⟨s', k', hk', hs'⟩ := hσ'.sameOn hB' ht
  exact C.congr hs.symm hs'.symm (unfold hbody s s' k k' t hk hk' (Nat.le_refl _))

/-- The part of a composite is related on all trees below a bound, if it is related on each of
them for the references that are related up to its height. -/
theorem onAll (C : Compositional h h' R G Q) {s s' : Schema α} {Γ : List Type} {γ γ' : Refs Γ}
    {m n : Nat} {ts : List Tree} (hn : n ≤ m) (hts : ∀ t ∈ ts, t.height < n)
    (hγ : Refs.RelatedBelow R n γ γ')
    (hs : ∀ t : Tree, t.height ≤ m → Refs.RelatedBelow R (t.height + 1) γ γ' → R t s s') :
    G.OnAll ts (h α s) (h' α s') := fun t ht =>
  C.part (hs t (Nat.le_trans (Nat.le_of_lt (hts t ht)) hn) (hγ.mono (hts t ht)))

end Compositional

section Terms

variable {h h' : Handling} {R G : TreeRelation} {Q : FieldsRelation} {σ σ' : Solving} {m : Nat}

mutual

/-- **Two readings of a term are related.** On a tree, the references to `Γ` have to be
related up to the height of the tree, those to `Δ` only below it. -/
theorem SchemaTerm.related_read (C : Compositional h h' R G Q) (hσ : σ.Unfolds m)
    (hσ' : σ'.Unfolds m) : ∀ {Δ Γ : List Type} {α : Type} (e : SchemaTerm Δ Γ α)
    {δ δ' : Refs Δ} {γ γ' : Refs Γ} (t : Tree), t.height ≤ m →
    Refs.RelatedBelow R t.height δ δ' → Refs.RelatedBelow R (t.height + 1) γ γ' →
    R t (e.read h σ δ γ) (e.read h' σ' δ' γ')
  | _, _, _, .leaf l, _, _, _, _, t, _, _, _ => by
    simp only [SchemaTerm.read]
    exact C.leaf t l
  | _, _, _, .payload p, _, _, _, _, t, ht, hδ, hγ => by
    simp only [SchemaTerm.read]
    exact p.related_toSchema C hσ hσ' t ht (hδ.append (hγ.mono (Nat.le_succ _)))
  | _, _, _, .enum vs, _, _, _, _, t, ht, hδ, hγ => by
    simp only [SchemaTerm.read]
    exact C.enum (vs.related_read C hσ hσ' ht (fun _ => Tree.height_lt_of_mem_children)
      (hδ.append (hγ.mono (Nat.le_succ _))))
  | _, _, _, .option inner, _, _, _, _, t, ht, hδ, hγ => by
    have hlower : ∀ u ∈ t.children, u.height < t.height := fun _ => Tree.height_lt_of_mem_children
    have hparts := hδ.append (hγ.mono (Nat.le_succ _))
    have hinner := C.onAll ht hlower hparts fun u hu => inner.related_read C hσ hσ' u hu .nil
    simp only [SchemaTerm.read, Schema.option_eq_map_enum]
    exact C.map _ (C.enum (.cons (.unit _) (.cons
      (.new _ (C.payloadMap _ (C.fixedTuple (.cons hinner .nil)))) .nil)))
  | _, _, _, .array element, _, _, _, _, t, ht, hδ, hγ => by
    have hlower : ∀ u ∈ t.children, u.height < t.height := fun _ => Tree.height_lt_of_mem_children
    have hparts := hδ.append (hγ.mono (Nat.le_succ _))
    simp only [SchemaTerm.read]
    exact C.array
      (C.onAll ht hlower hparts fun u hu => element.related_read C hσ hσ' u hu .nil)
  | _, _, _, .mapping key value, _, _, _, _, t, ht, hδ, hγ => by
    have hlower : ∀ u ∈ t.children, u.height < t.height := fun _ => Tree.height_lt_of_mem_children
    have hparts := hδ.append (hγ.mono (Nat.le_succ _))
    simp only [SchemaTerm.read]
    exact C.mapping
      (C.onAll ht hlower hparts fun u hu => key.related_read C hσ hσ' u hu .nil)
      (C.onAll ht hlower hparts fun u hu => value.related_read C hσ hσ' u hu .nil)
  | _, _, _, .recursive body, δ, δ', γ, γ', t, ht, hδ, hγ => by
    simp only [SchemaTerm.read]
    -- The body asks its owner below the tree only, so the owner joins the references to `Δ`.
    refine C.solve hσ hσ' ht (fun u hu s s' hs => ?_)
      (fun _ _ => body.kinds_read hσ.keepsKinds _ _ _)
      (fun _ _ => body.kinds_read hσ'.keepsKinds _ _ _)
    exact body.related_read C hσ hσ' u (Nat.le_trans hu ht)
      (fun w hw => .cons (hs w hw) (hδ w (by omega))) (hγ.mono (by omega))
  | _, _, _, .reference x, _, _, _, _, t, _, _, hγ => by
    simp only [SchemaTerm.read]
    exact (hγ t (Nat.lt_succ_self _)).get x
  | _, _, _, .boxed s, _, _, _, _, t, ht, hδ, hγ => by
    simp only [SchemaTerm.read]
    exact s.related_read C hσ hσ' t ht hδ hγ
  | _, _, _, .map f s, _, _, _, _, t, ht, hδ, hγ => by
    simp only [SchemaTerm.read]
    exact C.map f (s.related_read C hσ hσ' t ht hδ hγ)
  | _, _, _, .tryMap f s, _, _, _, _, t, ht, hδ, hγ => by
    simp only [SchemaTerm.read]
    exact C.tryMap f (s.related_read C hσ hσ' t ht hδ hγ)

/-- Two readings of a payload are related on fields, if the references are related on
trees lower than a bound above all of them. -/
theorem PayloadTerm.related_read (C : Compositional h h' R G Q) (hσ : σ.Unfolds m)
    (hσ' : σ'.Unfolds m) : ∀ {Γ : List Type} {α : Type} (e : PayloadTerm Γ α)
    {γ γ' : Refs Γ} {n : Nat} {ts : List Tree}, n ≤ m → (∀ t ∈ ts, t.height < n) →
    Refs.RelatedBelow R n γ γ' →
    Q ts (e.read h σ γ) (e.read h' σ' γ')
  | _, _, .struct fields, _, _, _, _, hn, hts, hγ => by
    simp only [PayloadTerm.read]
    exact C.struct (fields.related_read C hσ hσ' hn hts hγ)
  | _, _, .lenientStruct fields, _, _, _, _, hn, hts, hγ => by
    simp only [PayloadTerm.read]
    exact C.lenientStruct (fields.related_read C hσ hσ' hn hts hγ)
  | _, _, .tuple elements, _, _, _, _, hn, hts, hγ => by
    simp only [PayloadTerm.read]
    exact C.tuple (elements.related_read C hσ hσ' hn hts hγ)
  | _, _, .fixedStruct places, _, _, _, _, hn, hts, hγ => by
    simp only [PayloadTerm.read]
    exact C.fixedStruct (places.related_read C hσ hσ' hn hts hγ)
  | _, _, .fixedLenientStruct places, _, _, _, _, hn, hts, hγ => by
    simp only [PayloadTerm.read]
    exact C.fixedLenientStruct (places.related_read C hσ hσ' hn hts hγ)
  | _, _, .fixedTuple places, _, _, _, _, hn, hts, hγ => by
    simp only [PayloadTerm.read]
    exact C.fixedTuple (places.related_read C hσ hσ' hn hts hγ)
  | _, _, .boxed p, _, _, _, _, hn, hts, hγ => by
    simp only [PayloadTerm.read]
    exact p.related_read C hσ hσ' hn hts hγ
  | _, _, .map f p, _, _, _, _, hn, hts, hγ => by
    simp only [PayloadTerm.read]
    exact C.payloadMap f (p.related_read C hσ hσ' hn hts hγ)
  | _, _, .tryMap f p, _, _, _, _, hn, hts, hγ => by
    simp only [PayloadTerm.read]
    exact C.payloadTryMap f (p.related_read C hσ hσ' hn hts hγ)

/-- Two readings of a payload are related as schemas. -/
theorem PayloadTerm.related_toSchema (C : Compositional h h' R G Q) (hσ : σ.Unfolds m)
    (hσ' : σ'.Unfolds m) : ∀ {Γ : List Type} {α : Type} (e : PayloadTerm Γ α)
    {γ γ' : Refs Γ} (t : Tree), t.height ≤ m → Refs.RelatedBelow R t.height γ γ' →
    R t (e.read h σ γ).toSchema (e.read h' σ' γ').toSchema
  | _, _, .struct fields, _, _, t, ht, hγ => by
    simp only [PayloadTerm.read]
    exact C.ofFields (C.struct
      (fields.related_read C hσ hσ' ht (fun _ => Tree.height_lt_of_mem_children) hγ))
  | _, _, .lenientStruct fields, _, _, t, ht, hγ => by
    simp only [PayloadTerm.read]
    exact C.ofFields (C.lenientStruct
      (fields.related_read C hσ hσ' ht (fun _ => Tree.height_lt_of_mem_children) hγ))
  | _, _, .tuple elements, _, _, t, ht, hγ => by
    simp only [PayloadTerm.read]
    exact C.ofFields (C.tuple
      (elements.related_read C hσ hσ' ht (fun _ => Tree.height_lt_of_mem_children) hγ))
  | _, _, .fixedStruct places, _, _, t, ht, hγ => by
    simp only [PayloadTerm.read]
    exact C.ofFields (C.fixedStruct
      (places.related_read C hσ hσ' ht (fun _ => Tree.height_lt_of_mem_children) hγ))
  | _, _, .fixedLenientStruct places, _, _, t, ht, hγ => by
    simp only [PayloadTerm.read]
    exact C.ofFields (C.fixedLenientStruct
      (places.related_read C hσ hσ' ht (fun _ => Tree.height_lt_of_mem_children) hγ))
  | _, _, .fixedTuple places, _, _, t, ht, hγ => by
    simp only [PayloadTerm.read]
    exact C.ofFields (C.fixedTuple
      (places.related_read C hσ hσ' ht (fun _ => Tree.height_lt_of_mem_children) hγ))
  | _, _, .boxed p, _, _, t, ht, hγ => by
    simp only [PayloadTerm.read]
    exact p.related_toSchema C hσ hσ' t ht hγ
  | _, _, .map f p, _, _, t, ht, hγ => by
    simp only [PayloadTerm.read]
    exact C.map f (p.related_toSchema C hσ hσ' t ht hγ)
  | _, _, .tryMap f p, _, _, t, ht, hγ => by
    simp only [PayloadTerm.read]
    exact C.tryMap f (p.related_toSchema C hσ hσ' t ht hγ)

theorem FieldTerms.related_read (C : Compositional h h' R G Q) (hσ : σ.Unfolds m)
    (hσ' : σ'.Unfolds m) : ∀ {Γ : List Type} {α : Type} (e : FieldTerms Γ α)
    {γ γ' : Refs Γ} {n : Nat} {ts : List Tree}, n ≤ m → (∀ t ∈ ts, t.height < n) →
    Refs.RelatedBelow R n γ γ' →
    List.Forall₂ (Schema.FieldRelated (G.OnAll ts)) (e.read h σ γ) (e.read h' σ' γ')
  | _, _, .nil, _, _, _, _, _, _, _ => .nil
  | _, _, .cons _ head tail, _, _, _, _, hn, hts, hγ => by
    simp only [FieldTerms.read]
    have hhead := C.onAll hn hts hγ fun t ht => head.related_read C hσ hσ' t ht .nil
    exact .cons ⟨rfl, hhead⟩ (tail.related_read C hσ hσ' hn hts hγ)

theorem ElementTerms.related_read (C : Compositional h h' R G Q) (hσ : σ.Unfolds m)
    (hσ' : σ'.Unfolds m) : ∀ {Γ : List Type} {α : Type} (e : ElementTerms Γ α)
    {γ γ' : Refs Γ} {n : Nat} {ts : List Tree}, n ≤ m → (∀ t ∈ ts, t.height < n) →
    Refs.RelatedBelow R n γ γ' →
    List.Forall₂ (G.OnAll ts) (e.read h σ γ) (e.read h' σ' γ')
  | _, _, .nil, _, _, _, _, _, _, _ => .nil
  | _, _, .cons head tail, _, _, _, _, hn, hts, hγ => by
    simp only [ElementTerms.read]
    have hhead := C.onAll hn hts hγ fun t ht => head.related_read C hσ hσ' t ht .nil
    exact .cons hhead (tail.related_read C hσ hσ' hn hts hγ)

theorem VariantTerms.related_read (C : Compositional h h' R G Q) (hσ : σ.Unfolds m)
    (hσ' : σ'.Unfolds m) : ∀ {Γ : List Type} {α : Type} (e : VariantTerms Γ α)
    {γ γ' : Refs Γ} {n : Nat} {ts : List Tree}, n ≤ m → (∀ t ∈ ts, t.height < n) →
    Refs.RelatedBelow R n γ γ' →
    List.Forall₂ (Variant.Related (Q ts)) (e.read h σ γ) (e.read h' σ' γ')
  | _, _, .nil, _, _, _, _, _, _, _ => .nil
  | _, _, .unit name tail, _, _, _, _, hn, hts, hγ => by
    simp only [VariantTerms.read]
    exact .cons (.unit name) (tail.related_read C hσ hσ' hn hts hγ)
  | _, _, .new name head tail, _, _, _, _, hn, hts, hγ => by
    simp only [VariantTerms.read]
    exact .cons (.new name (head.related_read C hσ hσ' hn hts hγ))
      (tail.related_read C hσ hσ' hn hts hγ)

theorem PlaceTerms.related_read (C : Compositional h h' R G Q) (hσ : σ.Unfolds m)
    (hσ' : σ'.Unfolds m) : ∀ {Γ αs : List Type} (e : PlaceTerms Γ αs)
    {γ γ' : Refs Γ} {n : Nat} {ts : List Tree}, n ≤ m → (∀ t ∈ ts, t.height < n) →
    Refs.RelatedBelow R n γ γ' →
    Places.Related (G.OnAll ts) (.ofSchemas (e.read h σ γ)) (.ofSchemas (e.read h' σ' γ'))
  | _, _, .nil, _, _, _, _, _, _, _ => .nil
  | _, _, .cons head tail, _, _, _, _, hn, hts, hγ => by
    simp only [PlaceTerms.read, Places.ofSchemas]
    have hhead := C.onAll hn hts hγ fun t ht => head.related_read C hσ hσ' t ht .nil
    exact .cons hhead (tail.related_read C hσ hσ' hn hts hγ)

theorem NamedPlaceTerms.related_read (C : Compositional h h' R G Q) (hσ : σ.Unfolds m)
    (hσ' : σ'.Unfolds m) : ∀ {Γ αs : List Type} (e : NamedPlaceTerms Γ αs)
    {γ γ' : Refs Γ} {n : Nat} {ts : List Tree}, n ≤ m → (∀ t ∈ ts, t.height < n) →
    Refs.RelatedBelow R n γ γ' →
    NamedPlaces.Related (G.OnAll ts) (.ofSchemas (e.read h σ γ))
      (.ofSchemas (e.read h' σ' γ'))
  | _, _, .nil, _, _, _, _, _, _, _ => .nil
  | _, _, .cons name head tail, _, _, _, _, hn, hts, hγ => by
    simp only [NamedPlaceTerms.read, NamedPlaces.ofSchemas]
    have hhead := C.onAll hn hts hγ fun t ht => head.related_read C hσ hσ' t ht .nil
    exact .cons name hhead (tail.related_read C hσ hσ' hn hts hγ)

end

end Terms

section Cyclic

variable {h h' : Handling} {R G : TreeRelation} {Q : FieldsRelation}

/-- **The schemas of a term under two handlings are related.** -/
theorem SchemaTerm.related (C : Compositional h h' R G Q) {Δ Γ : List Type} {α : Type}
    (e : SchemaTerm Δ Γ α) {δ δ' : Refs Δ} {γ γ' : Refs Γ} (t : Tree)
    (hδ : Refs.RelatedBelow R t.height δ δ') (hγ : Refs.RelatedBelow R (t.height + 1) γ γ') :
    R t (e.interpret h δ γ) (e.interpret h' δ' γ') := by
  rw [e.interpret_eq_read, e.interpret_eq_read]
  exact e.related_read C (Solving.cyclic_unfolds t.height) (Solving.cyclic_unfolds t.height) t
    (Nat.le_refl _) hδ hγ

/-- The payloads of a term under two handlings are related on fields, if the references are
related on trees lower than a bound above all of them. -/
theorem PayloadTerm.related (C : Compositional h h' R G Q) {Γ : List Type} {α : Type}
    (e : PayloadTerm Γ α) {γ γ' : Refs Γ} {n : Nat} {ts : List Tree}
    (hts : ∀ t ∈ ts, t.height < n) (hγ : Refs.RelatedBelow R n γ γ') :
    Q ts (e.interpret h γ) (e.interpret h' γ') := by
  rw [e.interpret_eq_read, e.interpret_eq_read]
  exact e.related_read C (Solving.cyclic_unfolds n) (Solving.cyclic_unfolds n) (Nat.le_refl n)
    hts hγ

end Cyclic

end SborSchema
