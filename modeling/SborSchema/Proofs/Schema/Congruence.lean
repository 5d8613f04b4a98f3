/-
# Composites see their parts through the gate only

What a composite does on a tree depends on its parts only through what they do
behind the gate on the children. Two lists of parts that nothing tells apart
there give composites that nothing tells apart on the tree.

Key definitions: `Schema.SameGatedOn`, `Payload.SameOn`, `sameGated`.
Key theorems: `Schema.sameOn_array`, `Schema.sameOn_mapping`, `Schema.sameOn_enum`,
`Payload.sameOn_struct`, `Payload.sameOn_lenientStruct`, `Payload.sameOn_tuple`,
`Payload.sameOn_fixedStruct`, `Payload.sameOn_fixedLenientStruct`, `Payload.sameOn_fixedTuple`.
-/
import SborSchema.Proofs.Schema.Related

namespace SborSchema

variable {α β κ ν : Type}

/-- Two schemas that nothing tells apart on a tree behind the gate. -/
structure Schema.SameGatedOn (t : Tree) (s s' : Schema α) : Prop where
  validate : s.validateGated t = s'.validateGated t
  parse : s.parseGated t = s'.parseGated t

/-- Two payloads that nothing tells apart on a list of fields. -/
structure Payload.SameOn (ts : List Tree) (p p' : Payload α) : Prop where
  validateFields : p.validateFields ts = p'.validateFields ts
  parseFields : p.parseFields ts = p'.parseFields ts

theorem Schema.SameOn.of_forall {t : Tree} {s s' : Schema α} (hkinds : s.kinds = s'.kinds)
    (h : ∀ p, s.validate t p = s'.validate t p ∧ s.parse t p = s'.parse t p) : s.SameOn t s' :=
  ⟨hkinds, funext fun p => (h p).1, funext fun p => (h p).2⟩

theorem Payload.SameOn.of_forall {ts : List Tree} {p p' : Payload α}
    (h : ∀ path, p.validateFields ts path = p'.validateFields ts path ∧
      p.parseFields ts path = p'.parseFields ts path) : p.SameOn ts p' :=
  ⟨funext fun path => (h path).1, funext fun path => (h path).2⟩

/-- The relation of parts behind the gate. -/
def sameGated : TreeRelation := fun t _ s s' => s.SameGatedOn t s'

theorem Schema.SameOn.gated {t : Tree} {s s' : Schema α} (h : s.SameOn t s') :
    s.SameGatedOn t s' := by
  constructor <;> funext p
  · simp only [validateGated, gate, h.kinds, h.validate]
  · simp only [parseGated, gate, h.kinds, h.parse]

/-! ### Adapters -/

theorem Schema.SameOn.map {t : Tree} (f : α → β) {s s' : Schema α} (h : s.SameOn t s') :
    (s.map f).SameOn t (s'.map f) where
  kinds := h.kinds
  validate := h.validate
  parse := by funext p; simp only [Schema.map, h.parse]

theorem Schema.SameOn.tryMap {t : Tree} (f : α → Except String β) {s s' : Schema α}
    (h : s.SameOn t s') : (s.tryMap f).SameOn t (s'.tryMap f) where
  kinds := h.kinds
  validate := by funext p; simp only [Schema.tryMap, h.parse]
  parse := by funext p; simp only [Schema.tryMap, h.parse]

theorem Payload.SameOn.map {ts : List Tree} (f : α → β) {p p' : Payload α} (h : p.SameOn ts p') :
    (p.map f).SameOn ts (p'.map f) where
  validateFields := h.validateFields
  parseFields := by funext path; simp only [Payload.map, h.parseFields]

theorem Payload.SameOn.tryMap {ts : List Tree} (f : α → Except String β) {p p' : Payload α}
    (h : p.SameOn ts p') : (p.tryMap f).SameOn ts (p'.tryMap f) where
  validateFields := by funext path; simp only [Payload.tryMap, h.parseFields]
  parseFields := by funext path; simp only [Payload.tryMap, h.parseFields]

theorem Payload.sameOn_ofFields {t : Tree} {v v' : List Tree → Path → Except ParseError Unit}
    {f f' : List Tree → Path → Except ParseError α}
    (h : (ofFields v f).SameOn t.children (ofFields v' f')) :
    (ofFields v f).toSchema.SameOn t (ofFields v' f').toSchema := by
  refine .of_forall rfl fun p => ?_
  cases t with
  | tuple l fields => exact ⟨congrFun h.validateFields p, congrFun h.parseFields p⟩
  | leaf | array | map | enum => exact ⟨rfl, rfl⟩

/-! ### Arrays, maps and enums -/

namespace Schema

theorem elements_congr {s s' : Schema α} {p : Path} : ∀ {ts : List Tree} {i : Nat},
    (∀ t ∈ ts, s.SameGatedOn t s') →
    validateElements s ts i p = validateElements s' ts i p ∧
      parseElements s ts i p = parseElements s' ts i p
  | [], _, _ => ⟨rfl, rfl⟩
  | t :: ts, i, h => by
    have head := h t List.mem_cons_self
    have tail := elements_congr (p := p) (i := i + 1) fun u hu => h u (List.mem_cons_of_mem _ hu)
    simp only [validateElements, parseElements, head.validate, head.parse, tail, and_self]

theorem entries_congr {k k' : Schema κ} {v v' : Schema ν} {p : Path} :
    ∀ {es : List (Tree × Tree)} {i : Nat},
    (∀ e ∈ es, k.SameGatedOn e.1 k' ∧ v.SameGatedOn e.2 v') →
    validateEntries k v es i p = validateEntries k' v' es i p ∧
      parseEntries k v es i p = parseEntries k' v' es i p
  | [], _, _ => ⟨rfl, rfl⟩
  | (a, b) :: es, i, h => by
    obtain ⟨hk, hv⟩ := h (a, b) List.mem_cons_self
    have tail := entries_congr (p := p) (i := i + 1) fun e he => h e (List.mem_cons_of_mem _ he)
    simp only [validateEntries, parseEntries, hk.validate, hk.parse, hv.validate, hv.parse, tail,
      and_self]

theorem sameOn_array {t : Tree} {s s' : Schema α} (h : sameGated.OnAll t.children s s') :
    (Schema.array s).SameOn t (Schema.array s') := by
  refine .of_forall rfl fun p => ?_
  cases t with
  | array l k elements => exact elements_congr h
  | leaf | map | tuple | enum => exact ⟨rfl, rfl⟩

theorem sameOn_mapping {t : Tree} {k k' : Schema κ} {v v' : Schema ν}
    (hk : sameGated.OnAll t.children k k') (hv : sameGated.OnAll t.children v v') :
    (Schema.mapping k v).SameOn t (Schema.mapping k' v') := by
  refine .of_forall rfl fun p => ?_
  cases t with
  | map l keyKind valueKind entries =>
    refine entries_congr fun e he => ?_
    obtain ⟨hkey, hvalue⟩ := Tree.mem_children_of_mem_entries he l keyKind valueKind
    exact ⟨hk _ hkey, hv _ hvalue⟩
  | leaf | array | tuple | enum => exact ⟨rfl, rfl⟩

end Schema

section Variants

variable {vs vs' : List (Variant α)}

theorem Variant.Related.name_eq {Q : Payload α → Payload α → Prop} {v v' : Variant α}
    (h : Variant.Related Q v v') : v.name = v'.name := by
  cases h <;> rfl

theorem Variant.Related.isUnit_eq {Q : Payload α → Payload α → Prop} {v v' : Variant α}
    (h : Variant.Related Q v v') : v.isUnit = v'.isUnit := by
  cases h <;> rfl

theorem Variant.names_eq {Q : Payload α → Payload α → Prop}
    (h : List.Forall₂ (Variant.Related Q) vs vs') : vs.map (·.name) = vs'.map (·.name) := by
  induction h with
  | nil => rfl
  | cons head _ ih => simp only [List.map_cons, head.name_eq, ih]

/-- Under a name, related lists of variants either both have a first variant, and these
are related, or both have none. -/
theorem Variant.find?_related {Q : Payload α → Payload α → Prop}
    (h : List.Forall₂ (Variant.Related Q) vs vs') (name : String) :
    Option.Rel (Variant.Related Q) (vs.find? (·.name == name)) (vs'.find? (·.name == name)) := by
  induction h with
  | nil => exact .none
  | @cons v v' vs vs' head _ ih =>
    simp only [List.find?_cons, ← head.name_eq]
    cases v.name == name with
    | true => exact .some head
    | false => exact ih

/-- Related lists of variants refuse a node alike, each at its path, or resolve it to related
variants over its children. -/
theorem Variant.resolve_related {Q : Payload α → Payload α → Prop}
    (h : List.Forall₂ (Variant.Related Q) vs vs') (t : Tree) (p p' : Path) :
    (∃ c, resolve vs t p = .error ⟨c, p⟩ ∧ resolve vs' t p' = .error ⟨c, p'⟩) ∨
      ∃ v v', Variant.Related Q v v' ∧ resolve vs t p = .ok (v, t.children) ∧
        resolve vs' t p' = .ok (v', t.children) := by
  cases t with
  | leaf | array | map | tuple => exact Or.inl ⟨_, rfl, rfl⟩
  | enum l id name fields =>
    have hfind : Option.Rel (Variant.Related Q) (name.bind fun n => vs.find? (·.name == n))
        (name.bind fun n => vs'.find? (·.name == n)) := by
      cases name with
      | none => exact .none
      | some n => exact find?_related h n
    simp only [resolve, names_eq h]
    revert hfind
    generalize name.bind (fun n => vs.find? (·.name == n)) = found
    generalize name.bind (fun n => vs'.find? (·.name == n)) = found'
    intro hfind
    cases hfind with
    | none => exact Or.inl ⟨_, rfl, rfl⟩
    | some hv =>
      simp only [hv.isUnit_eq, hv.name_eq]
      split
      · exact Or.inl ⟨_, rfl, rfl⟩
      · exact Or.inr ⟨_, _, hv, rfl, rfl⟩

theorem Schema.sameOn_enum {t : Tree}
    (h : List.Forall₂ (Variant.Related (Payload.SameOn t.children)) vs vs') :
    (Schema.enum vs).SameOn t (Schema.enum vs') := by
  refine .of_forall rfl fun p => ?_
  simp only [Schema.enum]
  obtain ⟨c, he, he'⟩ | ⟨v, v', hv, hr, hr'⟩ := Variant.resolve_related h t p p
  · rw [he, he']
    exact ⟨rfl, rfl⟩
  · rw [hr, hr']
    cases hv with
    | unit name => exact ⟨rfl, rfl⟩
    | new name hp =>
      simp only [Variant.new, bind, Except.bind, hp.validateFields, hp.parseFields, and_self]

end Variants

/-! ### Structs and tuples -/

namespace Payload

variable {ts : List Tree} {p : Path}

theorem fields_names_eq {P : Schema α → Schema α → Prop} {fs fs' : List (String × Schema α)}
    (h : List.Forall₂ (Schema.FieldRelated P) fs fs') : fs.map (·.1) = fs'.map (·.1) := by
  induction h with
  | nil => rfl
  | cons head _ ih => simp only [List.map_cons, head.1, ih]

theorem checkMissing_congr {P : Schema α → Schema α → Prop} {fs fs' : List (String × Schema α)}
    (h : List.Forall₂ (Schema.FieldRelated P) fs fs') :
    checkMissing fs ts p = checkMissing fs' ts p := by
  simp only [checkMissing, missingNames, fields_names_eq h]

theorem fields_congr {fs fs' : List (String × Schema α)}
    (h : List.Forall₂ (Schema.FieldRelated (sameGated.OnAll ts)) fs fs') :
    validatePresent fs ts p = validatePresent fs' ts p ∧
      parseRequired fs ts p = parseRequired fs' ts p ∧
      parsePresent fs ts p = parsePresent fs' ts p := by
  induction h with
  | nil => exact ⟨rfl, rfl, rfl⟩
  | @cons f f' fs fs' head _ ih =>
    obtain ⟨name, s⟩ := f
    obtain ⟨_, s'⟩ := f'
    obtain ⟨rfl, hs⟩ := head
    simp only [validatePresent, parseRequired, parsePresent, ih]
    cases hc : Tree.child? name ts with
    | none => exact ⟨rfl, rfl, rfl⟩
    | some t =>
      have ht := hs t (Tree.mem_of_child? hc)
      simp only [ht.validate, ht.parse, and_self]

theorem sameOn_struct {fs fs' : List (String × Schema α)}
    (h : List.Forall₂ (Schema.FieldRelated (sameGated.OnAll ts)) fs fs') :
    (struct fs).SameOn ts (struct fs') := by
  refine .of_forall fun p => ?_
  obtain ⟨hv, hr, -⟩ := fields_congr (p := p) h
  simp only [struct, ofFields, checkMissing_congr h, hv, hr, and_self]

theorem sameOn_lenientStruct {fs fs' : List (String × Schema α)}
    (h : List.Forall₂ (Schema.FieldRelated (sameGated.OnAll ts)) fs fs') :
    (lenientStruct fs).SameOn ts (lenientStruct fs') := by
  refine .of_forall fun p => ?_
  obtain ⟨hv, -, hp⟩ := fields_congr (p := p) h
  exact ⟨hv, hp⟩

theorem each_congr {ss ss' : List (Schema α)} (h : List.Forall₂ (sameGated.OnAll ts) ss ss') :
    ∀ {us : List Tree} {i : Nat}, us ⊆ ts →
    validateEach ss us i p = validateEach ss' us i p ∧
      parseEach ss us i p = parseEach ss' us i p := by
  induction h with
  | nil => exact fun _ => ⟨rfl, rfl⟩
  | cons head _ ih =>
    intro us i hus
    cases us with
    | nil => exact ⟨rfl, rfl⟩
    | cons u us =>
      have hu := head u (hus List.mem_cons_self)
      have tail := ih (i := i + 1) fun v hv => hus (List.mem_cons_of_mem _ hv)
      simp only [validateEach, parseEach, hu.validate, hu.parse, tail, and_self]

theorem sameOn_tuple {ss ss' : List (Schema α)} (h : List.Forall₂ (sameGated.OnAll ts) ss ss') :
    (tuple ss).SameOn ts (tuple ss') := by
  refine .of_forall fun p => ?_
  have heach := each_congr (p := p) (i := 0) h (List.Subset.refl ts)
  simp only [tuple, ofFields, h.length_eq, heach, and_self]

end Payload

/-! ### Places -/

section Places

variable {ts : List Tree} {p : Path}

theorem Places.arity_eq {P : ∀ {α : Type}, Schema α → Schema α → Prop} {ps ps' : Places α}
    (h : Places.Related @P ps ps') : ps.arity = ps'.arity := by
  induction h with
  | nil => rfl
  | cons _ _ ih => simp only [arity, ih]

theorem Places.from_congr (declared found : Nat) {ps ps' : Places α}
    (h : Places.Related (sameGated.OnAll ts) ps ps') : ∀ {us : List Tree} {i : Nat}, us ⊆ ts →
    ps.validateFrom declared found us i p = ps'.validateFrom declared found us i p ∧
      ps.parseFrom declared found us i p = ps'.parseFrom declared found us i p := by
  induction h with
  | nil => exact fun _ => ⟨rfl, rfl⟩
  | cons head _ ih =>
    intro us i hus
    cases us with
    | nil => exact ⟨rfl, rfl⟩
    | cons u us =>
      have hu := head u (hus List.mem_cons_self)
      have tail := ih (i := i + 1) fun v hv => hus (List.mem_cons_of_mem _ hv)
      simp only [validateFrom, parseFrom, hu.validate, hu.parse, tail, and_self]

theorem Payload.sameOn_fixedTuple {ps ps' : Places α}
    (h : Places.Related (sameGated.OnAll ts) ps ps') :
    (fixedTuple ps).SameOn ts (fixedTuple ps') := by
  refine .of_forall fun p => ?_
  have hfrom := Places.from_congr ps'.arity ts.length (p := p) (i := 0) h (List.Subset.refl ts)
  simp only [fixedTuple, ofFields, Places.arity_eq h, hfrom, and_self]

theorem NamedPlaces.names_eq {P : ∀ {α : Type}, Schema α → Schema α → Prop}
    {ps ps' : NamedPlaces α β} (h : NamedPlaces.Related @P ps ps') : ps.names = ps'.names := by
  induction h with
  | nil => rfl
  | cons _ _ _ ih => simp only [names, ih]

theorem NamedPlaces.fields_congr {ps ps' : NamedPlaces α β}
    (h : NamedPlaces.Related (sameGated.OnAll ts) ps ps') :
    ps.validatePresent ts p = ps'.validatePresent ts p ∧
      ps.parseRequired ts p = ps'.parseRequired ts p ∧
      ps.parsePresent ts p = ps'.parsePresent ts p := by
  induction h with
  | nil => exact ⟨rfl, rfl, rfl⟩
  | cons name hs _ ih =>
    simp only [validatePresent, parseRequired, parsePresent, ih]
    cases hc : Tree.child? name ts with
    | none => exact ⟨rfl, rfl, rfl⟩
    | some t =>
      have ht := hs t (Tree.mem_of_child? hc)
      simp only [ht.validate, ht.parse, and_self]

theorem Payload.sameOn_fixedStruct {ps ps' : NamedPlaces α β}
    (h : NamedPlaces.Related (sameGated.OnAll ts) ps ps') :
    (fixedStruct ps).SameOn ts (fixedStruct ps') := by
  refine .of_forall fun p => ?_
  obtain ⟨hv, hr, -⟩ := NamedPlaces.fields_congr (p := p) h
  simp only [fixedStruct, ofFields, NamedPlaces.checkMissing, NamedPlaces.names_eq h, hv, hr,
    and_self]

theorem Payload.sameOn_fixedLenientStruct {ps ps' : NamedPlaces α β}
    (h : NamedPlaces.Related (sameGated.OnAll ts) ps ps') :
    (fixedLenientStruct ps).SameOn ts (fixedLenientStruct ps') := by
  refine .of_forall fun p => ?_
  obtain ⟨hv, -, hp⟩ := NamedPlaces.fields_congr (p := p) h
  exact ⟨hv, hp⟩

end Places

end SborSchema
