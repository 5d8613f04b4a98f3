/-
# Walks side by side

A composite walks through its children and goes on with what its parts make of
them. So the walks of two composites have related outcomes if the outcomes of
their parts are related, for any relation of outcomes that steps pass on
(`OutcomeRelation`). Of what a composite reports by itself little has to be
known: it is never what only a reference without an owner or the limit of depth
gives (`Cause.Foreign`), and it names the place of the composite. The walk on the left
may be one further down in a larger tree, so its places may be others.

Leaves and conversions read no more of the path than composites do. So a relation
of schemas that the outcomes govern respects how schemas are built.

Key definitions: `OutcomeRelation`, `OutcomeRelation.behindGate`, `OutcomeRelation.onFields`,
`OutcomeRelation.Governs`.
Key theorems: `OutcomeRelation.plain`, `OutcomeRelation.array`, `OutcomeRelation.mapping`,
`OutcomeRelation.enum`, `OutcomeRelation.struct`, `OutcomeRelation.lenientStruct`,
`OutcomeRelation.tuple`, `OutcomeRelation.fixedStruct`, `OutcomeRelation.fixedLenientStruct`,
`OutcomeRelation.fixedTuple`, `OutcomeRelation.Governs.compositional`.
-/
import SborSchema.Proofs.Outcome
import SborSchema.Proofs.Schema.Congruence
import SborSchema.Proofs.Schema.Scalar
import SborSchema.Proofs.Schema.Variant
import SborSchema.Proofs.Tree.Kind

namespace SborSchema

variable {α β κ ν : Type}

/-- The causes that only a reference without an owner or the limit of depth can give. -/
def Cause.Foreign : Cause → Prop
  | .detached => True
  | .wrongKind accepted _ => accepted = .empty
  | .depthExceeded .. => True
  | _ => False

theorem Variant.resolve_not_foreign {vs : List (Variant α)} {t : Tree} {p : Path}
    {err : ParseError} (h : resolve vs t p = .error err) : ¬ err.cause.Foreign := by
  cases t with
  | enum l id name fields =>
    obtain ⟨-, rfl⟩ | ⟨v, -, -, -, rfl⟩ := resolve_eq_error h <;> exact not_false
  | leaf | array | map | tuple =>
    obtain rfl := Except.error.inj h
    exact KindSet.single_ne_empty .enum

theorem Integer.read_not_foreign {kind : IntegerKind} {text : String} {c : Cause}
    (h : read kind text = .error c) : ¬ c.Foreign := by
  obtain ⟨-, rfl⟩ | ⟨n, -, -, ⟨-, -, rfl⟩ | ⟨-, rfl⟩⟩ := read_eq_error h <;> exact id

theorem Schema.readInstant_not_foreign {text : String} {c : Cause}
    (h : readInstant text = .error c) : ¬ c.Foreign := by
  obtain h | ⟨x, -, -, rfl⟩ := readInstant_eq_error h
  · exact Integer.read_not_foreign h
  · exact id

theorem LeafType.kinds_plain_ne_empty (l : LeafType) : l.plain.kinds ≠ .empty := by
  cases l <;> decide

/-- A relation of outcomes that is passed on by steps: it holds of a step that succeeds, of
what a composite reports by itself, and of two walks if it holds of their first steps and of
what follows these. On the left is the outcome at the place of a path, on the right that at
the path. -/
structure OutcomeRelation where
  Holds {α : Type} : Except ParseError α → Except ParseError α → Prop
  place : Path → Path
  place_step (p : Path) (step : Segment) : place (p.step step) = (place p).step step
  ok {α : Type} (a : α) : Holds (.ok a) (.ok a)
  error {α : Type} {c : Cause} (hc : ¬ c.Foreign) (p : Path) :
    Holds (.error ⟨c, place p⟩ : Except ParseError α) (.error ⟨c, p⟩)
  bind {α β : Type} {x y : Except ParseError α} {f g : α → Except ParseError β}
    (hxy : Holds x y) (hfg : ∀ a, Holds (f a) (g a)) : Holds (x >>= f) (y >>= g)

namespace OutcomeRelation

/-- A relation of outcomes at the same path. -/
def inPlace (Holds : ∀ {α : Type}, Except ParseError α → Except ParseError α → Prop)
    (ok : ∀ {α : Type} (a : α), Holds (.ok a) (.ok a))
    (error : ∀ {α : Type} {err : ParseError}, ¬ err.cause.Foreign →
      Holds (.error err : Except ParseError α) (.error err))
    (bind : ∀ {α β : Type} {x y : Except ParseError α} {f g : α → Except ParseError β},
      Holds x y → (∀ a, Holds (f a) (g a)) → Holds (x >>= f) (y >>= g)) : OutcomeRelation where
  Holds := Holds
  place p := p
  place_step _ _ := rfl
  ok := ok
  error hc _ := error hc
  bind := bind

/-- The relation of schemas whose outcomes on a tree are related behind the gate. -/
def behindGate (H : OutcomeRelation) : TreeRelation := fun t _ s s' =>
  ∀ p, H.Holds (s.parseGated t (H.place p)) (s'.parseGated t p)

/-- The relation of payloads whose outcomes on a list of fields are related. -/
def onFields (H : OutcomeRelation) : FieldsRelation := fun ts _ q q' =>
  ∀ p, H.Holds (q.parseFields ts (H.place p)) (q'.parseFields ts p)

variable (H : OutcomeRelation) {t : Tree} {ts : List Tree} {p : Path}

/-- What accepts nodes of one kind refuses all others alike. -/
theorem refused (k : Kind) (t : Tree) (p : Path) :
    H.Holds (.error (wrongKind (.single k) t (H.place p)) : Except ParseError α)
      (.error (wrongKind (.single k) t p)) :=
  H.error (c := .wrongKind (.single k) t.kind) (KindSet.single_ne_empty k) p

/-- A conversion does not read the path. -/
theorem convert (f : α → Except String β) (a : α) (p : Path) :
    H.Holds (Schema.convert f a (H.place p)) (Schema.convert f a p) := by
  unfold Schema.convert
  cases f a with
  | ok b => exact H.ok b
  | error reason => exact H.error id p

/-! ### Leaves -/

theorem readLeaf {accepted : KindSet} {read : Leaf → Option (Except Cause α)}
    (haccepted : accepted ≠ .empty)
    (hread : ∀ content c, read content = some (.error c) → ¬ c.Foreign) (t : Tree) (p : Path) :
    H.Holds (Schema.readLeaf accepted read t (H.place p)) (Schema.readLeaf accepted read t p) := by
  have hkind : ¬ (Cause.wrongKind accepted t.kind).Foreign := haccepted
  cases t with
  | leaf l content =>
    simp only [Schema.readLeaf]
    cases houtcome : read content with
    | none => exact H.error hkind p
    | some outcome =>
      cases outcome with
      | ok a => exact H.ok a
      | error c => exact H.error (hread content c houtcome) p
  | array | map | tuple | enum => exact H.error hkind p

theorem bytes (t : Tree) (p : Path) :
    H.Holds (Schema.bytes.parse t (H.place p)) (Schema.bytes.parse t p) := by
  have hcheck : H.Holds (Schema.checkBytes t (H.place p)) (Schema.checkBytes t p) := by
    unfold Schema.checkBytes
    split
    · split
      · exact H.error id p
      · split
        · exact H.ok ()
        · exact H.error id p
    · exact H.refused .bytes t p
  refine H.bind hcheck fun _ => ?_
  split
  · exact H.ok _
  · exact H.refused .bytes t p

theorem plain (t : Tree) (p : Path) : ∀ l : LeafType,
    H.Holds (l.plain.parse t (H.place p)) (l.plain.parse t p)
  | .bytes => H.bytes t p
  | .value => H.ok t
  | .number => by
    refine H.readLeaf (by decide) (fun content c h => ?_) t p
    cases content with
    | integer kind text => exact Integer.read_not_foreign (Option.some.inj h)
    | _ => cases h
  | .instant => by
    refine H.readLeaf (by decide) (fun content c h => ?_) t p
    cases content with
    | integer kind text =>
      dsimp only at h
      split at h
      · exact Schema.readInstant_not_foreign (Option.some.inj h)
      · cases h
    | _ => cases h
  | .bool | .string | .decimal | .address | .internalAddress | .nonFungibleLocalId => by
    refine H.readLeaf (by decide) (fun content c h => ?_) t p
    cases content <;> cases h

section Parts

variable {H}

/-- The place of a part is a step from that of the composite. -/
theorem behindGate.index {s s' : Schema α} (h : H.behindGate t s s') (p : Path) (i : Nat) :
    H.Holds (s.parseGated t ((H.place p).index i)) (s'.parseGated t (p.index i)) := by
  rw [Path.index, ← H.place_step]
  exact h (p.index i)

theorem behindGate.field {s s' : Schema α} (h : H.behindGate t s s') (p : Path) (name : String) :
    H.Holds (s.parseGated t ((H.place p).field name)) (s'.parseGated t (p.field name)) := by
  rw [Path.field, ← H.place_step]
  exact h (p.field name)

end Parts

/-! ### Arrays and maps -/

theorem elements {s s' : Schema α} : ∀ {ts : List Tree} {i : Nat},
    (∀ u ∈ ts, H.behindGate u s s') →
    H.Holds (Schema.parseElements s ts i (H.place p)) (Schema.parseElements s' ts i p)
  | [], _, _ => H.ok []
  | u :: ts, i, h => by
    obtain ⟨head, tail⟩ := List.forall_mem_cons.mp h
    exact H.bind (head.index p i) fun a => H.bind (elements tail) fun values => H.ok _

theorem entries {k k' : Schema κ} {v v' : Schema ν} : ∀ {es : List (Tree × Tree)} {i : Nat},
    (∀ e ∈ es, H.behindGate e.1 k k' ∧ H.behindGate e.2 v v') →
    H.Holds (Schema.parseEntries k v es i (H.place p)) (Schema.parseEntries k' v' es i p)
  | [], _, _ => H.ok []
  | (a, b) :: es, i, h => by
    obtain ⟨⟨hk, hv⟩, tail⟩ := List.forall_mem_cons.mp h
    exact H.bind (hk.index p i) fun a => H.bind (hv.index p i) fun b =>
      H.bind (entries tail) fun rest => H.ok _

/-- Arrays of parts that are related on the children are related. -/
theorem array {s s' : Schema α} (h : H.behindGate.OnAll t.children s s') (p : Path) :
    H.Holds ((Schema.array s).parse t (H.place p)) ((Schema.array s').parse t p) := by
  cases t with
  | array l k elements => exact H.elements h
  | leaf | map | tuple | enum => exact H.refused _ _ p

theorem mapping {k k' : Schema κ} {v v' : Schema ν} (hk : H.behindGate.OnAll t.children k k')
    (hv : H.behindGate.OnAll t.children v v') (p : Path) :
    H.Holds ((Schema.mapping k v).parse t (H.place p)) ((Schema.mapping k' v').parse t p) := by
  cases t with
  | map l keyKind valueKind entries =>
    refine H.entries fun e he => ?_
    obtain ⟨hkey, hvalue⟩ := Tree.mem_children_of_mem_entries he l keyKind valueKind
    exact ⟨hk _ hkey, hv _ hvalue⟩
  | leaf | array | tuple | enum => exact H.refused _ _ p

/-! ### Enums -/

theorem enum {vs vs' : List (Variant α)}
    (h : List.Forall₂ (Variant.Related (H.onFields t.children)) vs vs') (p : Path) :
    H.Holds ((Schema.enum vs).parse t (H.place p)) ((Schema.enum vs').parse t p) := by
  simp only [Schema.enum]
  obtain ⟨c, he, he'⟩ | ⟨v, v', hv, hr, hr'⟩ := Variant.resolve_related h t (H.place p) p
  · rw [he, he']
    exact H.error (Variant.resolve_not_foreign he) p
  · rw [hr, hr', ok_bind, ok_bind]
    cases hv with
    | unit name => exact H.ok _
    | new name hq =>
      have hfields := hq (p.field name)
      rw [Path.field, H.place_step] at hfields
      exact H.bind hfields fun a => H.ok _

/-! ### Structs and tuples -/

theorem ofFields {v v' : List Tree → Path → Except ParseError Unit}
    {f f' : List Tree → Path → Except ParseError α}
    (h : H.onFields t.children (.ofFields v f) (.ofFields v' f')) (p : Path) :
    H.Holds ((Payload.ofFields v f).parse t (H.place p)) ((Payload.ofFields v' f').parse t p) := by
  cases t with
  | tuple l fields => exact h p
  | leaf | array | map | enum => exact H.refused _ _ p

/-- A walk through the declared fields, whether they must be there or not. -/
theorem declared {fs fs' : List (String × Schema α)}
    (h : List.Forall₂ (Schema.FieldRelated (H.behindGate.OnAll ts)) fs fs') (p : Path) :
    H.Holds (Payload.parseRequired fs ts (H.place p)) (Payload.parseRequired fs' ts p) ∧
      H.Holds (Payload.parsePresent fs ts (H.place p)) (Payload.parsePresent fs' ts p) := by
  induction h with
  | nil => exact ⟨H.ok [], H.ok []⟩
  | @cons f f' fs fs' head _ ih =>
    obtain ⟨name, s⟩ := f
    obtain ⟨_, s'⟩ := f'
    obtain ⟨rfl, hs⟩ := head
    obtain ⟨hrequired, hpresent⟩ := ih
    simp only [Payload.parseRequired, Payload.parsePresent]
    cases hc : Tree.child? name ts with
    | none =>
      -- Only the walk that wants all fields reports the missing child.
      exact ⟨H.error id p, H.bind hpresent fun values => H.ok _⟩
    | some u =>
      have hu := behindGate.field (hs u (Tree.mem_of_child? hc)) p name
      exact ⟨H.bind hu fun a => H.bind hrequired fun values => H.ok _,
        H.bind hu fun a => H.bind hpresent fun values => H.ok _⟩

theorem struct {fs fs' : List (String × Schema α)}
    (h : List.Forall₂ (Schema.FieldRelated (H.behindGate.OnAll ts)) fs fs') :
    H.onFields ts (Payload.struct fs) (Payload.struct fs') := by
  intro p
  have hcheck : H.Holds (Payload.checkMissing fs ts (H.place p))
      (Payload.checkMissing fs' ts p) := by
    simp only [Payload.checkMissing, Payload.missingNames, Payload.fields_names_eq h]
    split
    · exact H.ok ()
    · exact H.error id p
  exact H.bind hcheck fun _ => (H.declared h p).1

theorem lenientStruct {fs fs' : List (String × Schema α)}
    (h : List.Forall₂ (Schema.FieldRelated (H.behindGate.OnAll ts)) fs fs') :
    H.onFields ts (Payload.lenientStruct fs) (Payload.lenientStruct fs') :=
  fun p => (H.declared h p).2

theorem arity (declared : Nat) (ts : List Tree) (p : Path) :
    H.Holds (Payload.checkArity declared ts (H.place p)) (Payload.checkArity declared ts p) := by
  rw [Payload.checkArity, Payload.checkArity]
  split
  · exact H.ok ()
  · exact H.error id p

theorem each {ss ss' : List (Schema α)} (h : List.Forall₂ (H.behindGate.OnAll ts) ss ss') :
    ∀ {us : List Tree} {i : Nat}, us ⊆ ts →
    H.Holds (Payload.parseEach ss us i (H.place p)) (Payload.parseEach ss' us i p) := by
  induction h with
  | nil => exact fun _ => H.ok []
  | cons head _ ih =>
    intro us i hus
    cases us with
    | nil => exact H.ok []
    | cons u us =>
      have hu := behindGate.index (head u (hus List.mem_cons_self)) p i
      exact H.bind hu fun a => H.bind (ih (List.subset_of_cons_subset hus)) fun values => H.ok _

theorem tuple {ss ss' : List (Schema α)} (h : List.Forall₂ (H.behindGate.OnAll ts) ss ss') :
    H.onFields ts (Payload.tuple ss) (Payload.tuple ss') := by
  intro p
  simp only [Payload.tuple, Payload.ofFields, h.length_eq]
  exact H.bind (H.arity _ ts p) fun _ => H.each h (List.Subset.refl ts)

/-! ### Places -/

theorem placesFrom (declared found : Nat) {ps ps' : Places α}
    (h : Places.Related (H.behindGate.OnAll ts) ps ps') : ∀ {us : List Tree} {i : Nat}, us ⊆ ts →
    H.Holds (ps.parseFrom declared found us i (H.place p))
      (ps'.parseFrom declared found us i p) := by
  induction h with
  | nil => exact fun _ => H.ok ()
  | cons head _ ih =>
    intro us i hus
    cases us with
    | nil => exact H.error id p
    | cons u us =>
      have hu := behindGate.index (head u (hus List.mem_cons_self)) p i
      exact H.bind hu fun a => H.bind (ih (List.subset_of_cons_subset hus)) fun rest => H.ok _

theorem fixedTuple {ps ps' : Places α} (h : Places.Related (H.behindGate.OnAll ts) ps ps') :
    H.onFields ts (Payload.fixedTuple ps) (Payload.fixedTuple ps') := by
  intro p
  simp only [Payload.fixedTuple, Payload.ofFields, Places.arity_eq h]
  exact H.bind (H.arity _ ts p) fun _ => H.placesFrom _ _ h (List.Subset.refl ts)

theorem namedPlaces {ps ps' : NamedPlaces α β}
    (h : NamedPlaces.Related (H.behindGate.OnAll ts) ps ps') (p : Path) :
    H.Holds (ps.parseRequired ts (H.place p)) (ps'.parseRequired ts p) ∧
      H.Holds (ps.parsePresent ts (H.place p)) (ps'.parsePresent ts p) := by
  induction h with
  | nil => exact ⟨H.ok (), H.ok ()⟩
  | cons name hs _ ih =>
    obtain ⟨hrequired, hpresent⟩ := ih
    simp only [NamedPlaces.parseRequired, NamedPlaces.parsePresent]
    cases hc : Tree.child? name ts with
    | none => exact ⟨H.error id p, H.bind hpresent fun rest => H.ok _⟩
    | some u =>
      have hu := behindGate.field (hs u (Tree.mem_of_child? hc)) p name
      exact ⟨H.bind hu fun a => H.bind hrequired fun rest => H.ok _,
        H.bind hu fun a => H.bind hpresent fun rest => H.ok _⟩

theorem fixedStruct {ps ps' : NamedPlaces α β}
    (h : NamedPlaces.Related (H.behindGate.OnAll ts) ps ps') :
    H.onFields ts (Payload.fixedStruct ps) (Payload.fixedStruct ps') := by
  intro p
  have hcheck : H.Holds (ps.checkMissing ts (H.place p)) (ps'.checkMissing ts p) := by
    simp only [NamedPlaces.checkMissing, NamedPlaces.names_eq h]
    split
    · exact H.ok ()
    · exact H.error id p
  exact H.bind hcheck fun _ => (H.namedPlaces h p).1

theorem fixedLenientStruct {ps ps' : NamedPlaces α β}
    (h : NamedPlaces.Related (H.behindGate.OnAll ts) ps ps') :
    H.onFields ts (Payload.fixedLenientStruct ps) (Payload.fixedLenientStruct ps') :=
  fun p => (H.namedPlaces h p).2

/-! ### All schemas -/

/-- A relation of schemas that the outcomes govern. It holds of schemas of the same kinds, if
these are any, whose outcomes are related; their outcomes are related behind the gate; and
adapters pass it on. -/
structure Governs (R : TreeRelation) : Prop where
  congr {t : Tree} {α : Type} {s₁ s₂ s₁' s₂' : Schema α} (hs : s₁.SameOn t s₂)
    (hs' : s₁'.SameOn t s₂') (hR : R t s₁ s₁') : R t s₂ s₂'
  behindGate {t : Tree} {α : Type} {s s' : Schema α} (hR : R t s s') : H.behindGate t s s'
  ofOutcomes {t : Tree} {α : Type} {s s' : Schema α} (hkinds : s.kinds = s'.kinds)
    (haccepts : s.kinds ≠ .empty)
    (hparse : ∀ p, H.Holds (s.parse t (H.place p)) (s'.parse t p)) : R t s s'
  map {t : Tree} {α β : Type} (f : α → β) {s s' : Schema α} (hR : R t s s') :
    R t (s.map f) (s'.map f)
  tryMap {t : Tree} {α β : Type} (f : α → Except String β) {s s' : Schema α} (hR : R t s s') :
    R t (s.tryMap f) (s'.tryMap f)

/-- Such a relation respects how schemas are built. -/
theorem Governs.compositional {H : OutcomeRelation} {R : TreeRelation} (h : H.Governs R) :
    Compositional .asIs .asIs R H.behindGate H.onFields where
  congr := h.congr
  part := h.behindGate
  leaf t l := h.ofOutcomes rfl l.kinds_plain_ne_empty fun p => H.plain t p l
  map := h.map
  tryMap := h.tryMap
  array hG := h.ofOutcomes rfl (KindSet.single_ne_empty _) (H.array hG)
  mapping hk hv := h.ofOutcomes rfl (KindSet.single_ne_empty _) (H.mapping hk hv)
  enum hQ := h.ofOutcomes rfl (KindSet.single_ne_empty _) (H.enum hQ)
  ofFields hQ := h.ofOutcomes rfl (KindSet.single_ne_empty _) (H.ofFields hQ)
  payloadMap f _ _ hQ p := H.bind (hQ p) fun a => H.ok (f a)
  payloadTryMap f _ _ hQ p := H.bind (hQ p) fun a => H.convert f a p
  struct hG := H.struct hG
  lenientStruct hG := H.lenientStruct hG
  tuple hG := H.tuple hG
  fixedStruct hG := H.fixedStruct hG
  fixedLenientStruct hG := H.fixedLenientStruct hG
  fixedTuple hG := H.fixedTuple hG

end OutcomeRelation

end SborSchema
