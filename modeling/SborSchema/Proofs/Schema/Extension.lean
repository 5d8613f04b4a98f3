/-
# Schemas that keep what others read

A schema is kept by another one if the other reads every tree that it reads, as
the same value. A composite is kept if its parts are. Two changes go further:
an enum may declare more variants behind its own, since the first one of a name
counts, and a struct may become lenient, since a strict struct that succeeds
has found all its fields.

Key definitions: `Schema.KeptBy`, `Payload.KeptBy`, `Kept`.
Key theorems: `Schema.enum_keptBy`, `Payload.struct_keptBy`,
`Payload.lenientStruct_of_struct`, `Schema.option_keptBy`.
-/
import SborSchema.Proofs.Schema.FirstError
import SborSchema.Proofs.Schema.Lenience
import SborSchema.Proofs.Schema.Success
import SborSchema.Proofs.Schema.Walk

namespace SborSchema

variable {α β κ ν : Type}

/-- Behind the gate, the second schema reads what the first one reads, as the same value. -/
def Schema.KeptBy (s s' : Schema α) : Prop :=
  ∀ t p a, s.parseGated t p = .ok a → s'.parseGated t p = .ok a

/-- The second payload reads the fields that the first one reads, as the same value. -/
def Payload.KeptBy (q q' : Payload α) : Prop :=
  ∀ fields p a, q.parseFields fields p = .ok a → q'.parseFields fields p = .ok a

/-- Schemas of the same kinds need to be compared behind the gate only. -/
theorem Schema.KeptBy.of_parse {s s' : Schema α} (hkinds : s.kinds = s'.kinds)
    (h : ∀ t p a, s.parse t p = .ok a → s'.parse t p = .ok a) : s.KeptBy s' := by
  intro t p a hp
  obtain ⟨hkind, hp⟩ := parseGated_eq_ok.mp hp
  exact parseGated_eq_ok.mpr ⟨hkinds ▸ hkind, h t p a hp⟩

theorem Schema.KeptBy.map (f : α → β) {s s' : Schema α} (h : s.KeptBy s') :
    (s.map f).KeptBy (s'.map f) := by
  intro t p b hp
  rw [map_parseGated] at hp ⊢
  obtain ⟨a, ha, rfl⟩ := map_eq_ok.mp hp
  exact map_eq_ok.mpr ⟨a, h t p a ha, rfl⟩

theorem Payload.KeptBy.map (f : α → β) {q q' : Payload α} (h : q.KeptBy q') :
    (q.map f).KeptBy (q'.map f) := by
  intro fields p b hp
  obtain ⟨a, ha, rfl⟩ := map_eq_ok.mp hp
  exact map_eq_ok.mpr ⟨a, h fields p a ha, rfl⟩

/-- The second outcome is the first one if this is a success. -/
def Kept (x y : Except ParseError α) : Prop := ∀ a, x = .ok a → y = .ok a

theorem Kept.bind {x y : Except ParseError α} {f g : α → Except ParseError β} (hxy : Kept x y)
    (hfg : ∀ a, Kept (f a) (g a)) : Kept (x >>= f) (y >>= g) := by
  intro b h
  obtain ⟨a, ha, h⟩ := bind_eq_ok.mp h
  exact bind_eq_ok.mpr ⟨a, hxy a ha, hfg a b h⟩

theorem Kept.error (e : ParseError) (y : Except ParseError α) : Kept (.error e) y := by
  intro a h
  cases h

/-- Outcomes that are kept, as a relation that walks pass on. -/
def keeping : OutcomeRelation := .inPlace Kept (fun _ _ => id) (fun _ => .error _ _) .bind

/-! ### Arrays and maps -/

namespace Schema

theorem array_keptBy {s s' : Schema α} (h : s.KeptBy s') : (array s).KeptBy (array s') :=
  .of_parse rfl fun _ => keeping.array fun u _ => h u

theorem mapping_keptBy {k k' : Schema κ} {v v' : Schema ν} (hk : k.KeptBy k')
    (hv : v.KeptBy v') : (mapping k v).KeptBy (mapping k' v') :=
  .of_parse rfl fun _ => keeping.mapping (fun u _ => hk u) fun u _ => hv u

end Schema

/-! ### Enums and options -/

/-- What a node chooses among the first variants it still chooses if more follow. -/
theorem Variant.resolve_append {Q : Payload α → Payload α → Prop} {vs vs' : List (Variant α)}
    (h : List.Forall₂ (Variant.Related Q) vs vs') (more : List (Variant α)) {t : Tree} {p : Path}
    {v : Variant α} {fields : List Tree} (hr : resolve vs t p = .ok (v, fields)) :
    ∃ v', Variant.Related Q v v' ∧ resolve (vs' ++ more) t p = .ok (v', fields) := by
  cases t with
  | leaf | array | map | tuple => cases hr
  | enum l id name children =>
    obtain ⟨⟨n, rfl, hfind, -⟩, rfl, hunit⟩ := resolve_eq_ok hr
    have hrel := find?_related h n
    rw [hfind] at hrel
    generalize hfind' : vs'.find? (·.name == n) = found at hrel
    cases hrel with
    | @some _ v' hv =>
      -- The variant is found before the search gets to the further ones.
      have happend : (vs' ++ more).find? (·.name == n) = some v' := by
        rw [List.find?_append, hfind', Option.some_or]
      refine ⟨v', hv, resolve_of_find? happend fun hnone => ?_⟩
      cases hv with
      | unit name => exact hunit rfl
      | new name head => cases hnone

namespace Schema

/-- An enum is kept by one that declares more variants behind its own. -/
theorem enum_keptBy {vs vs' : List (Variant α)}
    (h : List.Forall₂ (Variant.Related Payload.KeptBy) vs vs') (more : List (Variant α)) :
    (enum vs).KeptBy (enum (vs' ++ more)) := by
  refine .of_parse rfl fun t p c hp => ?_
  obtain ⟨⟨v, fields⟩, hr, hp⟩ := bind_eq_ok.mp hp
  obtain ⟨v', hv, hr'⟩ := Variant.resolve_append h more hr
  refine bind_eq_ok.mpr ⟨(v', fields), hr', ?_⟩
  cases hv with
  | unit name => exact hp
  | new name hq =>
    obtain ⟨a, ha, hp⟩ := bind_eq_ok.mp hp
    exact bind_eq_ok.mpr ⟨a, hq _ _ _ ha, hp⟩

theorem option_keptBy {s s' : Schema α} (h : s.KeptBy s') : (option s).KeptBy (option s') := by
  have hsome : Payload.KeptBy (Payload.fixedTuple (.cons s .nil))
      (Payload.fixedTuple (.cons s' .nil)) :=
    fun _ => keeping.fixedTuple (.cons (fun u _ => h u) .nil)
  have hvariants : List.Forall₂ (Variant.Related Payload.KeptBy) (optionVariants s)
      (optionVariants s') := .cons (.unit "None") (.cons (.new "Some" (hsome.map Prod.fst)) .nil)
  rw [option_eq_map_enum, option_eq_map_enum]
  have henum := enum_keptBy hvariants []
  rw [List.append_nil] at henum
  exact henum.map Choice.value

end Schema

/-! ### Structs and tuples -/

namespace Payload

variable {fs fs' : List (String × Schema α)} {children : List Tree} {p : Path}

/-- Fields that are kept are kept on all children. -/
theorem fields_kept (h : List.Forall₂ (Schema.FieldRelated Schema.KeptBy) fs fs') :
    List.Forall₂ (Schema.FieldRelated (keeping.behindGate.OnAll children)) fs fs' :=
  h.imp fun _ _ hf => ⟨hf.1, fun t _ => hf.2 t⟩

theorem struct_keptBy (h : List.Forall₂ (Schema.FieldRelated Schema.KeptBy) fs fs') :
    (struct fs).KeptBy (struct fs') :=
  fun _ => keeping.struct (fields_kept h)

theorem lenientStruct_keptBy (h : List.Forall₂ (Schema.FieldRelated Schema.KeptBy) fs fs') :
    (lenientStruct fs).KeptBy (lenientStruct fs') :=
  fun _ => keeping.lenientStruct (fields_kept h)

/-- A lenient struct gives every field that a strict one gives. -/
theorem lenientStruct_of_struct {values : List (String × α)}
    (hp : (struct fs).parseFields children p = .ok values) :
    (lenientStruct fs).parseFields children p = .ok (values.map fun g => (g.1, some g.2)) := by
  obtain ⟨_, hcheck, hp⟩ := bind_eq_ok.mp hp
  have hfound : ∀ name ∈ fs.map (·.1), Tree.child? name children ≠ none := by
    intro name hname
    obtain ⟨f, hf, rfl⟩ := List.mem_map.mp hname
    exact checkMissing_eq_ok hcheck f hf
  show parsePresent fs children p = _
  rw [parsePresent_eq_map hfound, hp]
  rfl

theorem tuple_keptBy {ss ss' : List (Schema α)} (h : List.Forall₂ Schema.KeptBy ss ss') :
    (tuple ss).KeptBy (tuple ss') :=
  fun _ => keeping.tuple (h.imp fun _ _ hs t _ => hs t)

end Payload
end SborSchema
