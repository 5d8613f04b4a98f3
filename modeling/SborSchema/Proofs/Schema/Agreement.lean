/-
# Checking and parsing agree

A schema checks a tree on one walk and parses it on another. Here the two walks
are compared: the check gives the verdict of the parse, which is the outcome
without the value, so both accept the same trees and both refuse another tree
with the same error (`validate_eq_verdict_parse`). Each composite keeps the
agreement of its parts, child by child.

Key definitions: `verdict`, `Schema.AgreesOn`, `Payload.AgreesOn`.
Key theorems: `agreement`, `validate_eq_verdict_parse`.
-/
import SborSchema.Proofs.Lists
import SborSchema.Proofs.Outcome
import SborSchema.Proofs.Schema.Related
import SborSchema.Proofs.Schema.Variant

namespace SborSchema

variable {α β κ ν : Type}

/-! ### Verdicts -/

/-- An outcome without its value. -/
def verdict (x : Except ParseError α) : Except ParseError Unit := x.map fun _ => ()

@[simp] theorem verdict_ok (a : α) : verdict (.ok a) = .ok () := rfl

@[simp] theorem verdict_pure (a : α) : verdict (pure a) = .ok () := rfl

@[simp] theorem verdict_error (e : ParseError) : verdict (.error e : Except ParseError α) = .error e :=
  rfl

@[simp] theorem verdict_unit (x : Except ParseError Unit) : verdict x = x := by
  cases x <;> rfl

theorem verdict_map (f : α → β) (x : Except ParseError α) : verdict (x.map f) = verdict x := by
  cases x <;> rfl

theorem verdict_bind (x : Except ParseError α) (f : α → Except ParseError β) :
    verdict (x >>= f) = x >>= fun a => verdict (f a) := by
  cases x <;> rfl

/-- A last step that only drops the value gives the verdict of the step before. -/
theorem bind_ok_unit (x : Except ParseError α) : (x >>= fun _ => .ok ()) = verdict x := by
  cases x <;> rfl

/-- After a verdict one goes on as after the outcome. -/
theorem verdict_then (x : Except ParseError α) (y : Except ParseError β) :
    (verdict x >>= fun _ => y) = x >>= fun _ => y := by
  cases x <;> rfl

/-! ### Agreement -/

/-- On a tree, the check of the schema gives the verdict of its parse. -/
def Schema.AgreesOn (t : Tree) (s : Schema α) : Prop :=
  ∀ p, s.validate t p = verdict (s.parse t p)

/-- On a list of fields, the check of the payload gives the verdict of its parse. -/
def Payload.AgreesOn (ts : List Tree) (p : Payload α) : Prop :=
  ∀ path, p.validateFields ts path = verdict (p.parseFields ts path)

theorem Schema.AgreesOn.gated {t : Tree} {s : Schema α} (hs : s.AgreesOn t) (p : Path) :
    s.validateGated t p = verdict (s.parseGated t p) := by
  rw [validateGated, parseGated, verdict_bind, hs p]

/-- A byte string is checked first, so what follows is reached on byte strings only. -/
theorem Schema.agreesOn_bytes (t : Tree) : Schema.bytes.AgreesOn t := by
  intro p
  simp only [Schema.bytes, verdict_bind]
  rcases t with ⟨l, content⟩ | _ | _ | _ | _
  · cases content with
    | bytes kind hex => simp only [verdict_ok, bind_ok_unit, verdict_unit]
    | bool | integer | string | decimal | preciseDecimal | reference | own | nonFungibleLocalId =>
      rfl
  all_goals rfl

/-- The check of a text leaf goes over the node by itself, and comes to the same. -/
theorem Schema.agreesOn_textLeaf (t : Tree) (kind : Kind) (text? : Leaf → Option String) :
    (Schema.textLeaf kind text?).AgreesOn t := by
  intro p
  cases t with
  | leaf l content =>
    simp only [Schema.textLeaf, Schema.readLeaf]
    cases text? content <;> rfl
  | array | map | tuple | enum => rfl

theorem Schema.agreesOn_plain (t : Tree) : ∀ l : LeafType, l.plain.AgreesOn t
  | .bool | .number | .decimal | .instant => fun _ => rfl
  | .string | .address | .internalAddress | .nonFungibleLocalId => Schema.agreesOn_textLeaf t _ _
  | .value => fun _ => rfl
  | .bytes => Schema.agreesOn_bytes t

/-! ### Adapters -/

theorem Schema.AgreesOn.map {t : Tree} (f : α → β) {s : Schema α} (hs : s.AgreesOn t) :
    (s.map f).AgreesOn t :=
  fun p => (hs p).trans (verdict_map f _).symm

theorem Payload.AgreesOn.map {ts : List Tree} (f : α → β) {p : Payload α} (hp : p.AgreesOn ts) :
    (p.map f).AgreesOn ts :=
  fun path => (hp path).trans (verdict_map f _).symm

/-- A conversion whose value is dropped gives its verdict. -/
theorem Schema.discard_convert (f : α → Except String β) (a : α) (p : Path) :
    discard (convert f a p) = verdict (convert f a p) := by
  cases h : convert f a p <;> rfl

theorem Schema.agreesOn_tryMap {t : Tree} (f : α → Except String β) (s : Schema α) :
    (s.tryMap f).AgreesOn t := by
  intro p
  simp only [Schema.tryMap, verdict_bind, discard_convert]

theorem Payload.agreesOn_tryMap {ts : List Tree} (f : α → Except String β) (p : Payload α) :
    (p.tryMap f).AgreesOn ts := by
  intro path
  simp only [Payload.tryMap, verdict_bind, Schema.discard_convert]

/-! ### Arrays and maps -/

namespace Schema

theorem validateElements_eq {s : Schema α} : ∀ {ts : List Tree}, (∀ t ∈ ts, s.AgreesOn t) →
    ∀ (i : Nat) (p : Path), validateElements s ts i p = verdict (parseElements s ts i p)
  | [], _, _, _ => rfl
  | t :: ts, hs, i, p => by
    have head := (hs t List.mem_cons_self).gated (p.index i)
    have tail := validateElements_eq (fun u hu => hs u (List.mem_cons_of_mem _ hu)) (i + 1) p
    simp only [validateElements, parseElements, verdict_bind, verdict_pure, bind_ok_unit,
      verdict_then, head, tail]

theorem validateEntries_eq {key : Schema κ} {value : Schema ν} : ∀ {es : List (Tree × Tree)},
    (∀ e ∈ es, key.AgreesOn e.1 ∧ value.AgreesOn e.2) → ∀ (i : Nat) (p : Path),
    validateEntries key value es i p = verdict (parseEntries key value es i p)
  | [], _, _, _ => rfl
  | (k, v) :: es, hs, i, p => by
    have hkey := (hs (k, v) List.mem_cons_self).1.gated (p.index i)
    have hvalue := (hs (k, v) List.mem_cons_self).2.gated (p.index i)
    have tail := validateEntries_eq (fun e he => hs e (List.mem_cons_of_mem _ he)) (i + 1) p
    simp only [validateEntries, parseEntries, verdict_bind, verdict_pure, bind_ok_unit,
      verdict_then, hkey, hvalue, tail]

theorem agreesOn_array {t : Tree} {s : Schema α} (hs : ∀ u ∈ t.children, s.AgreesOn u) :
    (Schema.array s).AgreesOn t := by
  intro p
  cases t with
  | array l k elements => exact validateElements_eq hs 0 p
  | leaf | map | tuple | enum => rfl

theorem agreesOn_mapping {t : Tree} {key : Schema κ} {value : Schema ν}
    (hk : ∀ u ∈ t.children, key.AgreesOn u) (hv : ∀ u ∈ t.children, value.AgreesOn u) :
    (Schema.mapping key value).AgreesOn t := by
  intro p
  cases t with
  | map l k v entries =>
    refine validateEntries_eq (fun e he => ?_) 0 p
    obtain ⟨hkey, hvalue⟩ := Tree.mem_children_of_mem_entries he l k v
    exact ⟨hk _ hkey, hv _ hvalue⟩
  | leaf | array | tuple | enum => rfl

end Schema

/-! ### Structs and tuples -/

namespace Payload

variable {ts : List Tree}

theorem agreesOn_lenientStruct {fs : List (String × Schema α)}
    (hs : ∀ f ∈ fs, ∀ t ∈ ts, f.2.AgreesOn t) : (lenientStruct fs).AgreesOn ts := by
  intro p
  change validatePresent fs ts p = verdict (parsePresent fs ts p)
  induction fs with
  | nil => rfl
  | cons f fs ih =>
    have tail := ih fun g hg => hs g (List.mem_cons_of_mem _ hg)
    obtain ⟨name, s⟩ := f
    simp only [validatePresent, parsePresent]
    cases hc : Tree.child? name ts with
    | none => simp only [verdict_bind, verdict_pure, bind_ok_unit, tail]; rfl
    | some t =>
      have head := (hs _ List.mem_cons_self t (Tree.mem_of_child? hc)).gated (p.field name)
      simp only [verdict_bind, verdict_pure, bind_ok_unit, verdict_then, head, tail]

/-- Once no declared name is missing, the two walks over the fields agree. -/
theorem validatePresent_eq {p : Path} : ∀ {fs : List (String × Schema α)},
    (∀ f ∈ fs, ∀ t ∈ ts, f.2.AgreesOn t) → (∀ f ∈ fs, Tree.child? f.1 ts ≠ none) →
    validatePresent fs ts p = verdict (parseRequired fs ts p)
  | [], _, _ => rfl
  | (name, s) :: fs, hs, hfound => by
    have tail := validatePresent_eq (p := p) (fun g hg => hs g (List.mem_cons_of_mem _ hg))
      fun g hg => hfound g (List.mem_cons_of_mem _ hg)
    simp only [validatePresent, parseRequired]
    cases hc : Tree.child? name ts with
    | none => exact absurd hc (hfound _ List.mem_cons_self)
    | some t =>
      have head := (hs _ List.mem_cons_self t (Tree.mem_of_child? hc)).gated (p.field name)
      simp only [verdict_bind, verdict_pure, bind_ok_unit, verdict_then, head, tail]

theorem missingNames_eq_nil_iff {fs : List (String × Schema α)} :
    missingNames fs ts = [] ↔ ∀ f ∈ fs, Tree.child? f.1 ts ≠ none := by
  simp [missingNames, List.filter_eq_nil_iff]

theorem agreesOn_struct {fs : List (String × Schema α)}
    (hs : ∀ f ∈ fs, ∀ t ∈ ts, f.2.AgreesOn t) : (Payload.struct fs).AgreesOn ts := by
  intro p
  change (checkMissing fs ts p >>= fun _ => validatePresent fs ts p) =
    verdict (checkMissing fs ts p >>= fun _ => parseRequired fs ts p)
  rw [verdict_bind, checkMissing]
  cases hm : missingNames fs ts with
  | nil => exact validatePresent_eq hs (missingNames_eq_nil_iff.mp hm)
  | cons name names => rfl

theorem validateEach_eq {p : Path} : ∀ {ss : List (Schema α)} {ts : List Tree} {i : Nat},
    (∀ s ∈ ss, ∀ t ∈ ts, s.AgreesOn t) →
    validateEach ss ts i p = verdict (parseEach ss ts i p)
  | [], _, _, _ => rfl
  | _ :: _, [], _, _ => rfl
  | s :: ss, t :: ts, i, hs => by
    have head := (hs s List.mem_cons_self t List.mem_cons_self).gated (p.index i)
    have tail := validateEach_eq (p := p) (i := i + 1) fun s' hs' u hu =>
      hs s' (List.mem_cons_of_mem _ hs') u (List.mem_cons_of_mem _ hu)
    simp only [validateEach, parseEach, verdict_bind, verdict_pure, bind_ok_unit, verdict_then,
      head, tail]

theorem agreesOn_tuple {ss : List (Schema α)} (hs : ∀ s ∈ ss, ∀ t ∈ ts, s.AgreesOn t) :
    (tuple ss).AgreesOn ts := by
  intro p
  change (checkArity ss.length ts p >>= fun _ => validateEach ss ts 0 p) =
    verdict (checkArity ss.length ts p >>= fun _ => parseEach ss ts 0 p)
  rw [verdict_bind, validateEach_eq hs]

end Payload

/-! ### Places -/

/-- The relation of the induction: the left schema agrees, whatever the right one is. -/
def agreement : TreeRelation := fun t _ s _ => s.AgreesOn t

section Places

variable {ts : List Tree} {p : Path}

theorem Places.validateFrom_eq {declared found : Nat} {ps ps' : Places α}
    (h : Places.Related (agreement.OnAll ts) ps ps') : ∀ {us : List Tree} {i : Nat}, us ⊆ ts →
    ps.validateFrom declared found us i p = verdict (ps.parseFrom declared found us i p) := by
  induction h with
  | nil => intros; rfl
  | @cons _ _ s _ ps _ hs _ ih =>
    intro us i hus
    cases us with
    | nil => rfl
    | cons u us =>
      have head := (hs u (hus List.mem_cons_self)).gated (p.index i)
      have tail := ih (i := i + 1) fun v hv => hus (List.mem_cons_of_mem _ hv)
      simp only [validateFrom, parseFrom, verdict_bind, verdict_pure, bind_ok_unit, verdict_then,
        head, tail]

theorem Payload.agreesOn_fixedTuple {ps ps' : Places α}
    (h : Places.Related (agreement.OnAll ts) ps ps') : (fixedTuple ps).AgreesOn ts := by
  intro p
  change (checkArity ps.arity ts p >>= fun _ => ps.validateFrom ps.arity ts.length ts 0 p) =
    verdict (checkArity ps.arity ts p >>= fun _ => ps.parseFrom ps.arity ts.length ts 0 p)
  rw [verdict_bind, Places.validateFrom_eq h (List.Subset.refl ts)]

theorem Payload.agreesOn_fixedLenientStruct {ps ps' : NamedPlaces α β}
    (h : NamedPlaces.Related (agreement.OnAll ts) ps ps') :
    (fixedLenientStruct ps).AgreesOn ts := by
  intro p
  change ps.validatePresent ts p = verdict (ps.parsePresent ts p)
  induction h with
  | nil => rfl
  | @cons _ _ _ name s _ ps _ hs _ ih =>
    simp only [NamedPlaces.validatePresent, NamedPlaces.parsePresent]
    cases hc : Tree.child? name ts with
    | none => simp only [verdict_bind, verdict_pure, bind_ok_unit, ih]; rfl
    | some t =>
      have head := (hs t (Tree.mem_of_child? hc)).gated (p.field name)
      simp only [verdict_bind, verdict_pure, bind_ok_unit, verdict_then, head, ih]

/-- Once no name is missing, the two walks over named places agree. -/
theorem NamedPlaces.validatePresent_eq {ps ps' : NamedPlaces α β}
    (h : NamedPlaces.Related (agreement.OnAll ts) ps ps') :
    (∀ name ∈ ps.names, Tree.child? name ts ≠ none) →
    ps.validatePresent ts p = verdict (ps.parseRequired ts p) := by
  induction h with
  | nil => intros; rfl
  | @cons _ _ _ name s _ ps _ hs _ ih =>
    intro hfound
    have tail := ih fun n hn => hfound n (List.mem_cons_of_mem _ hn)
    simp only [validatePresent, parseRequired]
    cases hc : Tree.child? name ts with
    | none => exact absurd hc (hfound name List.mem_cons_self)
    | some t =>
      have head := (hs t (Tree.mem_of_child? hc)).gated (p.field name)
      simp only [verdict_bind, verdict_pure, bind_ok_unit, verdict_then, head, tail]

theorem Payload.agreesOn_fixedStruct {ps ps' : NamedPlaces α β}
    (h : NamedPlaces.Related (agreement.OnAll ts) ps ps') : (fixedStruct ps).AgreesOn ts := by
  intro p
  change (ps.checkMissing ts p >>= fun _ => ps.validatePresent ts p) =
    verdict (ps.checkMissing ts p >>= fun _ => ps.parseRequired ts p)
  rw [verdict_bind, NamedPlaces.checkMissing]
  cases hm : ps.names.filter fun name => (Tree.child? name ts).isNone with
  | nil =>
    refine NamedPlaces.validatePresent_eq h fun name hn hc => ?_
    have := List.filter_eq_nil_iff.mp hm name hn
    simp [hc] at this
  | cons name names => rfl

end Places

/-! ### Enums -/

/-- On a list of fields, the payload of a variant agrees if there is one. -/
def Variant.AgreesOn (ts : List Tree) (v : Variant α) : Prop :=
  ∀ payload ∈ v.payload, payload.AgreesOn ts

theorem Schema.agreesOn_enum {vs : List (Variant α)} {t : Tree}
    (hvs : ∀ v ∈ vs, v.AgreesOn t.children) : (Schema.enum vs).AgreesOn t := by
  intro p
  simp only [Schema.enum]
  cases hr : Variant.resolve vs t p with
  | error e => rfl
  | ok r =>
    obtain ⟨v, fields⟩ := r
    obtain ⟨hv, rfl⟩ := Variant.mem_of_resolve hr
    rw [verdict_bind, ok_bind, ok_bind]
    cases hp : v.payload with
    | none => rfl
    | some payload =>
      simp only [verdict_bind, verdict_pure, bind_ok_unit]
      exact hvs v hv payload hp _

/-! ### All schemas -/

theorem agreement_compositional :
    Compositional .asIs .asIs agreement agreement fun ts _ p _ => p.AgreesOn ts where
  congr hs _ hR := fun p => by rw [← hs.validate, ← hs.parse]; exact hR p
  part hR := hR
  leaf t l := Schema.agreesOn_plain t l
  map f _ _ hR := hR.map f
  tryMap f _ _ _ := Schema.agreesOn_tryMap f _
  array hG := Schema.agreesOn_array hG
  mapping hk hv := Schema.agreesOn_mapping hk hv
  enum hQ := by
    refine Schema.agreesOn_enum (forall_mem_of_forall₂ (fun v v' h => ?_) hQ)
    cases h with
    | unit name => simp [Variant.AgreesOn, Variant.unit]
    | new name head => simpa [Variant.AgreesOn, Variant.new] using head
  ofFields {t _ _ _ _ _} hQ := by
    intro p
    cases t with
    | tuple l fields => exact hQ p
    | leaf | array | map | enum => rfl
  payloadMap f _ _ hQ := hQ.map f
  payloadTryMap f _ _ _ := Payload.agreesOn_tryMap f _
  struct hG := Payload.agreesOn_struct (forall_mem_of_forall₂ (fun _ _ h => h.2) hG)
  lenientStruct hG := Payload.agreesOn_lenientStruct (forall_mem_of_forall₂ (fun _ _ h => h.2) hG)
  tuple hG := Payload.agreesOn_tuple (forall_mem_of_forall₂ (fun _ _ h t ht => h t ht) hG)
  fixedStruct hG := Payload.agreesOn_fixedStruct hG
  fixedLenientStruct hG := Payload.agreesOn_fixedLenientStruct hG
  fixedTuple hG := Payload.agreesOn_fixedTuple hG

theorem Refs.agreesOn_detached (t : Tree) : ∀ {Γ : List Type},
    Refs.Related (agreement t) (detached : Refs Γ) detached
  | [] => .nil
  | _ :: _ => .cons (fun _ => rfl) (agreesOn_detached t)

theorem SchemaTerm.agreesOn {Γ : List Type} (e : SchemaTerm [] Γ α) (t : Tree) :
    (e.schema .nil .detached).AgreesOn t :=
  e.related agreement_compositional t .nil fun u _ => Refs.agreesOn_detached u

theorem PayloadTerm.agreesOn {Γ : List Type} (e : PayloadTerm Γ α) (fields : List Tree) :
    (e.toPayload .detached).AgreesOn fields :=
  e.related agreement_compositional (fun _ => Tree.height_lt_of_mem) fun u _ =>
    Refs.agreesOn_detached u

/-- **The check is the verdict of the parse.** For every schema, with references to
owners that are there (bound in the term) or gone (free in it), and for every payload:
on every tree, list of fields and path, the check succeeds if and only if the parse
does, and fails with the same error. -/
theorem validate_eq_verdict_parse {Γ : List Type} {α : Type} :
    (∀ (e : SchemaTerm [] Γ α) (t : Tree) (p : Path),
      (e.schema .nil .detached).validate t p =
        verdict ((e.schema .nil .detached).parse t p)) ∧
    (∀ (e : PayloadTerm Γ α) (fields : List Tree) (p : Path),
      (e.toPayload .detached).validateFields fields p =
        verdict ((e.toPayload .detached).parseFields fields p)) := by
  constructor
  · intro e t p
    exact e.related agreement_compositional t .nil (fun u _ => Refs.agreesOn_detached u) p
  · intro e fields p
    refine e.related agreement_compositional (n := Tree.heightList fields + 1) (fun t ht => ?_)
      (fun u _ => Refs.agreesOn_detached u) p
    exact Nat.lt_succ_of_le (Tree.height_le_heightList ht)

end SborSchema
