/-
# A payload reads a tuple node as the fields of the node

A payload has two entries: as a schema it is run on a node, and as the content
of a variant on a bare list of fields. Structs and tuples take the fields off
the node and go on as with a bare list, but an adapter handles each entry on its
own, and a conversion is run in both. Here the two are brought together: on a
tuple node a payload does what it does on the fields of the node
(`Payload.ReadsTuples`). So an enum node is read as if its fields were a tuple
one step further down, at the name of its variant (`payload_entries_agree`).

Key definitions: `Payload.ReadsTuples`.
Key theorems: `PayloadTerm.readsTuples`, `Schema.validate_enum_of_find?`,
`Schema.parse_enum_of_find?`, `payload_entries_agree`.
-/
import SborSchema.Proofs.Outcome
import SborSchema.Proofs.Schema.Term
import SborSchema.Proofs.Schema.Variant

namespace SborSchema

variable {α β : Type}

/-- On a tuple node, the payload does what it does on the fields of the node. -/
structure Payload.ReadsTuples (q : Payload α) : Prop where
  validate (l : Labels) (fields : List Tree) (p : Path) :
    q.validate (.tuple l fields) p = q.validateFields fields p
  parse (l : Labels) (fields : List Tree) (p : Path) :
    q.parse (.tuple l fields) p = q.parseFields fields p

namespace Payload

/-- Structs and tuples take the fields off the node. -/
theorem readsTuples_ofFields (v : List Tree → Path → Except ParseError Unit)
    (f : List Tree → Path → Except ParseError α) : (ofFields v f).ReadsTuples :=
  ⟨fun _ _ _ => rfl, fun _ _ _ => rfl⟩

theorem ReadsTuples.map (f : α → β) {q : Payload α} (h : q.ReadsTuples) :
    (q.map f).ReadsTuples where
  validate := h.validate
  parse l fields p := by
    show (q.parse (.tuple l fields) p).map f = (q.parseFields fields p).map f
    rw [h.parse]

/-- A conversion is run on the same value from both entries, and refuses at the same path. -/
theorem ReadsTuples.tryMap (f : α → Except String β) {q : Payload α} (h : q.ReadsTuples) :
    (q.tryMap f).ReadsTuples where
  validate l fields p := by
    show (q.parse (.tuple l fields) p >>= fun a => discard (Schema.convert f a p)) =
      q.parseFields fields p >>= fun a => discard (Schema.convert f a p)
    rw [h.parse]
  parse l fields p := by
    show (q.parse (.tuple l fields) p >>= fun a => Schema.convert f a p) =
      q.parseFields fields p >>= fun a => Schema.convert f a p
    rw [h.parse]

end Payload

/-- A payload reads tuple nodes by their fields, however many adapters stand around it. -/
theorem PayloadTerm.readsTuples (h : Handling) : ∀ {Γ : List Type} {α : Type}
    (e : PayloadTerm Γ α) (γ : Refs Γ), (e.interpret h γ).ReadsTuples
  | _, _, .struct _, _ | _, _, .lenientStruct _, _ | _, _, .tuple _, _
  | _, _, .fixedStruct _, _ | _, _, .fixedLenientStruct _, _ | _, _, .fixedTuple _, _ => by
    simp only [PayloadTerm.interpret]
    exact Payload.readsTuples_ofFields _ _
  | _, _, .boxed e, γ => by
    simp only [PayloadTerm.interpret]
    exact e.readsTuples h γ
  | _, _, .map f e, γ => by
    simp only [PayloadTerm.interpret]
    exact (e.readsTuples h γ).map f
  | _, _, .tryMap f e, γ => by
    simp only [PayloadTerm.interpret]
    exact (e.readsTuples h γ).tryMap f

/-! ### Variants -/

namespace Schema

variable {vs : List (Variant α)} {v : Variant α} {name : String} {q : Payload α}

/-- An enum node hands its fields to the first declared variant of its name. -/
theorem resolve_of_payload (hfind : vs.find? (·.name == name) = some v)
    (hpayload : v.payload = some q) (l : Labels) (id : String) (fields : List Tree) (p : Path) :
    Variant.resolve vs (.enum l id (some name) fields) p = .ok (v, fields) ∧ v.name = name := by
  have hname : v.name = name := by simpa using List.find?_some hfind
  refine ⟨Variant.resolve_of_find? hfind fun hunit => ?_, hname⟩
  rw [hpayload] at hunit
  cases hunit

theorem validate_enum_of_find? (hfind : vs.find? (·.name == name) = some v)
    (hpayload : v.payload = some q) (l : Labels) (id : String) (fields : List Tree) (p : Path) :
    (Schema.enum vs).validate (.enum l id (some name) fields) p =
      q.validateFields fields (p.field name) := by
  obtain ⟨hresolve, hname⟩ := resolve_of_payload hfind hpayload l id fields p
  simp only [Schema.enum, hresolve, ok_bind, hpayload, hname]

theorem parse_enum_of_find? (hfind : vs.find? (·.name == name) = some v)
    (hpayload : v.payload = some q) (l : Labels) (id : String) (fields : List Tree) (p : Path) :
    (Schema.enum vs).parse (.enum l id (some name) fields) p =
      (q.parseFields fields (p.field name)).map fun a => ⟨name, some a⟩ := by
  obtain ⟨hresolve, hname⟩ := resolve_of_payload hfind hpayload l id fields p
  simp only [Schema.enum, hresolve, ok_bind, hpayload, hname]
  cases q.parseFields fields (p.field name) with
  | ok a => rfl
  | error e => rfl

end Schema

/-- **The two entries of a payload agree.** A struct, a lenient struct or a tuple, under any
adapters and in any boxes, checks and parses a tuple node as it checks and parses the list of
the fields of the node. So an enum node is checked and parsed as the tuple of its fields, by the
payload of the first declared variant of its name and at the step of that name: the choice holds
what the tuple gives, and a fault is that of the tuple. -/
theorem payload_entries_agree {Γ : List Type} (e : PayloadTerm Γ α) (γ : Refs Γ) (l : Labels)
    (fields : List Tree) :
    (∀ p, (e.toPayload γ).validate (.tuple l fields) p = (e.toPayload γ).validateFields fields p ∧
      (e.toPayload γ).parse (.tuple l fields) p = (e.toPayload γ).parseFields fields p) ∧
    ∀ (vs : List (Variant α)) (v : Variant α) (name : String),
      vs.find? (·.name == name) = some v → v.payload = some (e.toPayload γ) →
      ∀ (k : Labels) (id : String) (p : Path),
        (Schema.enum vs).validate (.enum k id (some name) fields) p =
          (e.toPayload γ).validate (.tuple l fields) (p.field name) ∧
        (Schema.enum vs).parse (.enum k id (some name) fields) p =
          ((e.toPayload γ).parse (.tuple l fields) (p.field name)).map fun a => ⟨name, some a⟩ := by
  have htuples : (e.toPayload γ).ReadsTuples := e.readsTuples .asIs γ
  refine ⟨fun p => ⟨htuples.validate l fields p, htuples.parse l fields p⟩, ?_⟩
  intro vs v name hfind hpayload k id p
  rw [htuples.validate, htuples.parse]
  exact ⟨Schema.validate_enum_of_find? hfind hpayload k id fields p,
    Schema.parse_enum_of_find? hfind hpayload k id fields p⟩

/-- A conversion that refuses what the tuple gives refuses it in the variant too, one step
further down. The unit variant of the same name comes later and does not count. -/
theorem payload_entries_agree_refused :
    let e : PayloadTerm [] Bool :=
      .tryMap (fun b : Bool => if b then .ok b else .error "no")
        (.boxed (.map Prod.fst (.fixedTuple (.cons (.leaf .bool) .nil))))
    let vs : List (Variant Bool) := [.unit "A", .new "B" (e.toPayload .nil), .unit "B"]
    vs.find? (·.name == "B") = some (.new "B" (e.toPayload .nil)) ∧
      (e.toPayload .nil).parse (.tuple {} [.leaf {} (.bool false)]) (Path.root.field "B") =
        .error ⟨.rejected "no", [.field "B"]⟩ ∧
      (Schema.enum vs).parse (.enum {} "1" (some "B") [.leaf {} (.bool false)]) .root =
        .error ⟨.rejected "no", [.field "B"]⟩ := by
  intro e vs
  have hfind : vs.find? (·.name == "B") = some (.new "B" (e.toPayload .nil)) := rfl
  have htuple : (e.toPayload .nil).parse (.tuple {} [.leaf {} (.bool false)])
      (Path.root.field "B") = .error ⟨.rejected "no", [.field "B"]⟩ := by
    simp only [e, PayloadTerm.toPayload, PayloadTerm.interpret, PlaceTerms.interpret]
    rfl
  have hagree := (payload_entries_agree e .nil {} [.leaf {} (.bool false)]).2 vs _ "B" hfind rfl
  have henum := (hagree {} "1" .root).2
  rw [htuple] at henum
  exact ⟨hfind, htuple, henum⟩

end SborSchema
