/-
# The gate is redundant

A schema states the kinds it accepts, and its check and its parse look at the
node once more on their own. Here the two are brought together: where every
reference has an owner, a schema that is run without the gate on a node of
another kind refuses it with the very error of the gate (`Schema.RefusesOn`).
So the gate changes nothing, neither at the root nor in front of any child: a
reading of the schema whose composites leave out the gate at some places, given
by their paths, has the same outcomes (`gate_redundant`).

Key definitions: `Schema.RefusesOn`, `Handling.skipping`.
Key theorems: `gate_compositional`, `gate_redundant`.
-/
import SborSchema.Proofs.Schema.Congruence
import SborSchema.Proofs.Tree.Kind

namespace SborSchema

variable {α β κ ν : Type}

/-- If the kind of the tree is not accepted, the check and the parse refuse the tree
with the error of the gate. -/
def Schema.RefusesOn (t : Tree) (s : Schema α) : Prop :=
  s.kinds.contains t.kind = false → ∀ p,
    s.validate t p = .error (wrongKind s.kinds t p) ∧
      s.parse t p = .error (wrongKind s.kinds t p)

/-- Composites that leave out the gate in front of a part at some places. The kinds
are set to all so that the gate of the composite itself lets every node pass. -/
def Handling.skipping (skip : Path → Bool) : Handling := fun _ s =>
  { kinds := .all
    validate := fun t p => if skip p then s.validate t p else s.validateGated t p
    parse := fun t p => if skip p then s.parse t p else s.parseGated t p }

namespace Schema

variable {t : Tree}

/-! ### Running without the gate -/

theorem RefusesOn.ungated {s : Schema α} (h : s.RefusesOn t) (p : Path) :
    s.validateGated t p = s.validate t p ∧ s.parseGated t p = s.parse t p := by
  simp only [validateGated, parseGated, gate]
  cases hc : s.kinds.contains t.kind with
  | true => exact ⟨rfl, rfl⟩
  | false =>
    obtain ⟨hv, hp⟩ := h hc p
    rw [hv, hp]
    exact ⟨rfl, rfl⟩

/-- Leaving out the gate in front of a part that refuses on its own changes nothing. -/
theorem RefusesOn.sameGatedOn_skipping {s s' : Schema α} (h : s.RefusesOn t)
    (hs : s.SameOn t s') (skip : Path → Bool) :
    s.SameGatedOn t (Handling.skipping skip α s') := by
  have hpass : ∀ p, (Handling.skipping skip α s').gate t p = .ok () := fun p => by
    simp only [gate, Handling.skipping, KindSet.contains_all, if_pos]
  constructor <;> funext p
  · have hskip : (Handling.skipping skip α s').validateGated t p =
        if skip p then s'.validate t p else s'.validateGated t p := by
      rw [validateGated, hpass]
      rfl
    rw [hskip, ← hs.validate, ← hs.gated.validate, (h.ungated p).1, ite_self]
  · have hskip : (Handling.skipping skip α s').parseGated t p =
        if skip p then s'.parse t p else s'.parseGated t p := by
      rw [parseGated, hpass]
      rfl
    rw [hskip, ← hs.parse, ← hs.gated.parse, (h.ungated p).2, ite_self]

/-! ### Leaves -/

/-- A reader of leaves refuses if it gives nothing for the kinds that are not accepted. -/
theorem readLeaf_refused {kinds : KindSet} {read : Leaf → Option (Except Cause α)}
    (hread : ∀ content : Leaf, kinds.contains content.kind = false → read content = none)
    (hc : kinds.contains t.kind = false) (p : Path) :
    readLeaf kinds read t p = .error (wrongKind kinds t p) := by
  cases t with
  | leaf l content =>
    have hnone : read content = none := hread content hc
    simp only [readLeaf, hnone]
  | array | map | tuple | enum => rfl

theorem refusesOn_ofLeaf {kinds : KindSet} {read : Leaf → Option (Except Cause α)}
    (hread : ∀ content : Leaf, kinds.contains content.kind = false → read content = none) :
    (ofLeaf kinds read).RefusesOn t := by
  intro hc p
  have hparse : readLeaf kinds read t p = .error (wrongKind kinds t p) :=
    readLeaf_refused hread hc p
  refine ⟨?_, hparse⟩
  change (readLeaf kinds read t p).map _ = _
  rw [hparse]
  rfl

/-- A text leaf refuses in its check as it does in its parse. -/
theorem refusesOn_textLeaf {kind : Kind} {text? : Leaf → Option String}
    (htext : ∀ content : Leaf, content.kind ≠ kind → text? content = none) :
    (textLeaf kind text?).RefusesOn t := by
  intro hc p
  have hread : ∀ content : Leaf, (KindSet.single kind).contains content.kind = false →
      (text? content).map Except.ok = (none : Option (Except Cause String)) := by
    intro content hcontent
    rw [htext content (by simpa using hcontent)]
    rfl
  refine ⟨?_, readLeaf_refused hread hc p⟩
  cases t with
  | leaf l content =>
    have hnone : text? content = none := htext content (by simpa [textLeaf, Tree.kind] using hc)
    simp only [textLeaf, hnone]
  | array | map | tuple | enum => rfl

theorem refusesOn_bytes : Schema.bytes.RefusesOn t := by
  intro hc p
  cases t with
  | leaf l content =>
    cases content with
    | bytes kind hex => simp [Schema.bytes, Tree.kind, Leaf.kind] at hc
    | bool | integer | string | decimal | preciseDecimal | reference | own | nonFungibleLocalId =>
      exact ⟨rfl, rfl⟩
  | array | map | tuple | enum => exact ⟨rfl, rfl⟩

theorem refusesOn_number : Schema.number.RefusesOn t :=
  refusesOn_ofLeaf fun content hc => by
    cases content with
    | integer kind text =>
      exact absurd (KindSet.contains_integers.mpr ⟨kind, rfl⟩) (Bool.eq_false_iff.mp hc)
    | _ => rfl

theorem refusesOn_instant : Schema.instant.RefusesOn t :=
  refusesOn_ofLeaf fun content hc => by
    cases content with
    | integer kind text => simpa [Leaf.kind] using hc
    | _ => rfl

theorem refusesOn_decimal : Schema.decimal.RefusesOn t :=
  refusesOn_ofLeaf fun content hc => by
    cases content with
    | decimal | preciseDecimal => simp [Leaf.kind, KindSet.decimals, KindSet.contains_ofList] at hc
    | _ => rfl

/-- A leaf refuses the nodes of the kinds it does not accept. -/
theorem refusesOn_plain : ∀ l : LeafType, l.plain.RefusesOn t
  | .bytes => refusesOn_bytes
  | .number => refusesOn_number
  | .instant => refusesOn_instant
  | .decimal => refusesOn_decimal
  | .value => fun hc => by simp [LeafType.plain, Schema.any] at hc
  | .bool => refusesOn_ofLeaf fun content hc => by
    cases content with
    | _ => first | rfl | simp [Leaf.kind] at hc
  | .string | .address | .internalAddress | .nonFungibleLocalId =>
    refusesOn_textLeaf fun content hc => by
      cases content with
      | _ => first | rfl | exact absurd rfl hc

/-! ### Adapters and composites -/

theorem RefusesOn.map (f : α → β) {s : Schema α} (h : s.RefusesOn t) : (s.map f).RefusesOn t := by
  intro hc p
  obtain ⟨hv, hp⟩ := h hc p
  refine ⟨hv, ?_⟩
  change (s.parse t p).map f = _
  rw [hp]
  rfl

/-- A conversion is not reached on a tree that is refused. -/
theorem RefusesOn.tryMap (f : α → Except String β) {s : Schema α} (h : s.RefusesOn t) :
    (s.tryMap f).RefusesOn t := by
  intro hc p
  obtain ⟨-, hp⟩ := h hc p
  simp only [Schema.tryMap, hp]
  exact ⟨rfl, rfl⟩

theorem refusesOn_array (s : Schema α) : (Schema.array s).RefusesOn t := by
  intro hc p
  cases t with
  | array => simp [Tree.kind] at hc
  | leaf | map | tuple | enum => exact ⟨rfl, rfl⟩

theorem refusesOn_mapping (k : Schema κ) (v : Schema ν) : (Schema.mapping k v).RefusesOn t := by
  intro hc p
  cases t with
  | map => simp [Tree.kind] at hc
  | leaf | array | tuple | enum => exact ⟨rfl, rfl⟩

theorem refusesOn_enum (vs : List (Variant α)) : (Schema.enum vs).RefusesOn t := by
  intro hc p
  cases t with
  | enum => simp [Tree.kind] at hc
  | leaf | array | map | tuple => exact ⟨rfl, rfl⟩

theorem refusesOn_ofFields (v : List Tree → Path → Except ParseError Unit)
    (f : List Tree → Path → Except ParseError α) :
    (Payload.ofFields v f).toSchema.RefusesOn t := by
  intro hc p
  cases t with
  | tuple => simp [Payload.ofFields, Tree.kind] at hc
  | leaf | array | map | enum => exact ⟨rfl, rfl⟩

/-- What a schema does on a tree decides whether it refuses the tree. -/
theorem RefusesOn.congr {s s' : Schema α} (h : s.RefusesOn t) (hs : s.SameOn t s') :
    s'.RefusesOn t := by
  rw [RefusesOn, ← hs.kinds, ← hs.validate, ← hs.parse]
  exact h

end Schema

/-! ### All schemas -/

/-- The relation of the induction: nothing tells the readings apart, and a tree of
another kind is refused. -/
def refusal : TreeRelation := fun t _ s s' => s.SameOn t s' ∧ s.RefusesOn t

/-- A reading that leaves out the gate at some places respects how schemas are built. -/
theorem gate_compositional (skip : Path → Bool) :
    Compositional .asIs (.skipping skip) refusal sameGated fun ts _ p p' => p.SameOn ts p' where
  congr hs hs' hR := ⟨hs.symm.trans (hR.1.trans hs'), hR.2.congr hs⟩
  part hR := hR.2.sameGatedOn_skipping hR.1 skip
  leaf t l := ⟨.refl t _, Schema.refusesOn_plain l⟩
  map f _ _ hR := ⟨hR.1.map f, hR.2.map f⟩
  tryMap f _ _ hR := ⟨hR.1.tryMap f, hR.2.tryMap f⟩
  array hG := ⟨Schema.sameOn_array hG, Schema.refusesOn_array _⟩
  mapping hk hv := ⟨Schema.sameOn_mapping hk hv, Schema.refusesOn_mapping _ _⟩
  enum hQ := ⟨Schema.sameOn_enum hQ, Schema.refusesOn_enum _⟩
  ofFields hQ := ⟨Payload.sameOn_ofFields hQ, Schema.refusesOn_ofFields _ _⟩
  payloadMap f _ _ hQ := hQ.map f
  payloadTryMap f _ _ hQ := hQ.tryMap f
  struct hG := Payload.sameOn_struct hG
  lenientStruct hG := Payload.sameOn_lenientStruct hG
  tuple hG := Payload.sameOn_tuple hG
  fixedStruct hG := Payload.sameOn_fixedStruct hG
  fixedLenientStruct hG := Payload.sameOn_fixedLenientStruct hG
  fixedTuple hG := Payload.sameOn_fixedTuple hG

/-- **The gate is redundant.** A schema whose references all have their owners refuses a
node of another kind with the error of the gate, whether it checks or parses. So running
the gate first changes neither, and nothing changes if the composites of the schema
leave out the gate in front of the parts at any set of places. -/
theorem gate_redundant {α : Type} (e : SchemaTerm [] [] α) (t : Tree) (p : Path) :
    ((e.schema .nil .nil).kinds.contains t.kind = false →
      (e.schema .nil .nil).gate t p = .error (wrongKind (e.schema .nil .nil).kinds t p) ∧
      (e.schema .nil .nil).validate t p = (e.schema .nil .nil).gate t p ∧
      (e.schema .nil .nil).parse t p =
        .error (wrongKind (e.schema .nil .nil).kinds t p)) ∧
    (e.schema .nil .nil).validateGated t p = (e.schema .nil .nil).validate t p ∧
    (e.schema .nil .nil).parseGated t p = (e.schema .nil .nil).parse t p ∧
    ∀ skip : Path → Bool,
      (e.interpret (.skipping skip) .nil .nil).validate t p = (e.schema .nil .nil).validate t p ∧
      (e.interpret (.skipping skip) .nil .nil).parse t p = (e.schema .nil .nil).parse t p := by
  have hall : ∀ skip, refusal t (e.schema .nil .nil) (e.interpret (.skipping skip) .nil .nil) :=
    fun skip => e.related (gate_compositional skip) t .nil .nil
  have hrefuses : (e.schema .nil .nil).RefusesOn t := (hall fun _ => true).2
  refine ⟨fun hc => ?_, (hrefuses.ungated p).1, (hrefuses.ungated p).2, fun skip => ?_⟩
  · have hgate : (e.schema .nil .nil).gate t p =
        .error (wrongKind (e.schema .nil .nil).kinds t p) := by
      simp only [Schema.gate, hc, Bool.false_eq_true, if_false]
    exact ⟨hgate, (hrefuses hc p).1.trans hgate.symm, (hrefuses hc p).2⟩
  · have hsame := (hall skip).1
    exact ⟨(congrFun hsame.validate p).symm, (congrFun hsame.parse p).symm⟩

/-- Nested arrays refuse a text, with and without the gate. -/
theorem gate_redundant_nested_arrays :
    let e : SchemaTerm [] [] Nat := .recursive (.map List.length (.array (.reference .here)))
    let t : Tree := .leaf {} (.string "x")
    (e.schema .nil .nil).kinds.contains t.kind = false ∧
      (e.schema .nil .nil).parse t .root =
        .error (wrongKind (e.schema .nil .nil).kinds t .root) :=
  have hc := by decide
  ⟨hc, ((gate_redundant (.recursive (.map List.length (.array (.reference .here))))
    (.leaf {} (.string "x")) .root).1 hc).2.2⟩

end SborSchema
