/-
# References whose owners are gone

A reference whose owner is gone accepts no kind. Composites run the gate in
front of their parts, and so does whoever parses a whole tree: such a reference
is refused for the kind of the node, and what it reports without the gate comes
up only if it is itself what is run without the gate.

Here a term is read twice. Its free references are gone in one reading, and
stand for any schemas in the other. The two outcomes are the same up to where
the parse comes to a free reference, and if that fails in the other reading,
the other outcome is its failure (`Meets`). Steps pass this on, so it goes through
every composite (`meeting_compositional`). A reading whose references report every node they are
asked about (`Schema.probe`) then tells where the parse comes to one.

Key definitions: `Schema.probe`, `SchemaTerm.Reaches`, `SchemaTerm.IsReference`, `Meets`.
Key theorems: `meeting_compositional`, `SchemaTerm.kinds_eq_empty`, `SchemaTerm.meets_run`,
`SchemaTerm.reaches_iff`, `detached_behind_gate`.
-/
import SborSchema.Proofs.Schema.Agreement
import SborSchema.Proofs.Schema.Walk

namespace SborSchema

variable {Γ Δ : List Type} {α β κ ν : Type}

/-! ### Reaching a reference -/

/-- Accepts every node, and fails with a report on it. -/
def Schema.probe (report : Kind → Route → ParseError) : Schema α where
  kinds := .all
  validate t p := .error (report t.kind p)
  parse t p := .error (report t.kind p)

/-- References that report the nodes they are asked about. -/
def Refs.probes (report : Kind → Route → ParseError) : {Γ : List Type} → Refs Γ
  | [] => .nil
  | _ :: _ => .cons (Schema.probe report) (probes report)

/-- The parse of a tree comes to a free reference, at a node of the kind and at the path:
whatever the free references report on the nodes they are asked about, the outcome is the
report on this one. -/
def SchemaTerm.Reaches (e : SchemaTerm [] Γ α) (t : Tree) (k : Kind) (q : Route) : Prop :=
  ∀ report, (e.schema .nil (.probes report)).run t = .error (report k q)

/-- The term is a free reference, or one in boxes, under adapters and as the body of owners. -/
def SchemaTerm.IsReference : {Δ Γ : List Type} → {α : Type} → SchemaTerm Δ Γ α → Prop
  | _, _, _, .reference _ => True
  | _, _, _, .recursive body => body.IsReference
  | _, _, _, .boxed s | _, _, _, .map _ s | _, _, _, .tryMap _ s => s.IsReference
  | _, _, _, _ => False

/-! ### Two readings of an outcome -/

theorem Cause.kind_eq_detached {c : Cause} : c.kind = .detached ↔ c = .detached := by
  cases c <;> simp [kind]

/-- An outcome with the free references gone, and one with them read as `γ` says: both are the
same, and it is not a reference that failed; or the first has failed at a reference for
the kind of the node, and the second fails there if the reference does. -/
inductive Meets (γ : Refs Γ) : Except ParseError α → Except ParseError α → Prop
  | same {x : Except ParseError α} (h : ∀ err, x = .error err → ¬ err.cause.Foreign) : Meets γ x x
  | met {β : Type} {x : Ref Γ β} {t : Tree} {p : Path} {y : Except ParseError α}
      (h : ∀ err, (γ.get x).parseGated t p = .error err → y = .error err) :
      Meets γ (.error (wrongKind .empty t p)) y

namespace Meets

variable {γ : Refs Γ} {x y : Except ParseError α}

theorem ok (a : α) : Meets γ (.ok a : Except ParseError α) (.ok a) :=
  .same fun _ h => nomatch h

/-- A failure that is not that of a reference. -/
theorem error {err : ParseError} (h : ¬ err.cause.Foreign) :
    Meets γ (.error err : Except ParseError α) (.error err) :=
  .same fun _ he => Except.error.inj he ▸ h

theorem bind {f g : α → Except ParseError β} (h : Meets γ x y) (hfg : ∀ a, Meets γ (f a) (g a)) :
    Meets γ (x >>= f) (y >>= g) := by
  cases h with
  | same hx =>
    cases x with
    | ok a => exact hfg a
    | error err => exact .error (hx err rfl)
  | met hy => exact .met fun err he => by rw [hy err he]; rfl

theorem map (f : α → β) (h : Meets γ x y) : Meets γ (x.map f) (y.map f) :=
  h.bind fun a => .ok (f a)

/-- The first outcome is not what a reference reports without the gate. -/
theorem ne_detached {err : ParseError} (h : Meets γ x y) (hx : x = .error err) :
    err.cause.kind ≠ .detached := by
  intro hkind
  rw [Cause.kind_eq_detached] at hkind
  cases h with
  | same hsame => exact hsame err hx (hkind ▸ trivial)
  | met =>
    obtain rfl := Except.error.inj hx
    cases hkind

/-- Outcomes that meet, as a relation that walks keep. -/
def walks (γ : Refs Γ) : OutcomeRelation := .inPlace (Meets γ) ok error bind

end Meets

/-! ### Two readings of a schema -/

/-- On a tree, the outcomes of two schemas of the same kinds meet. -/
structure Schema.MeetsOn (γ : Refs Γ) (t : Tree) (s s' : Schema α) : Prop where
  kinds_eq : s.kinds = s'.kinds
  accepts : s.kinds ≠ .empty
  parse : ∀ p, Meets γ (s.parse t p) (s'.parse t p)

/-- A schema that is a reference without an owner, and one that fails on a tree if the
reference does. -/
structure Schema.GoneOn (γ : Refs Γ) (t : Tree) (s s' : Schema α) : Prop where
  kinds : s.kinds = .empty
  parse : ∀ p, s.parse t p = .error ⟨.detached, p⟩
  fails : ∃ (β : Type) (x : Ref Γ β), ∀ p err, (γ.get x).parseGated t p = .error err →
    s'.parseGated t p = .error err

/-- The relation of the induction: the outcomes meet, or the left schema is gone. -/
def meeting (γ : Refs Γ) : TreeRelation := fun t _ s s' => s.MeetsOn γ t s' ∨ s.GoneOn γ t s'

section Relation

variable {γ : Refs Γ} {t : Tree}

/-- Behind the gate, a reference without an owner is refused for the kind of the node. -/
theorem meeting.behindGate {s s' : Schema α} (h : meeting γ t s s') :
    (Meets.walks γ).behindGate t s s' := by
  intro p
  rcases h with h | h
  · refine Meets.bind ?_ fun _ => h.parse p
    rw [Schema.gate, Schema.gate, ← h.kinds_eq]
    split
    · exact .ok ()
    · exact .error h.accepts
  · obtain ⟨β, x, hx⟩ := h.fails
    have hgate : s.parseGated t p = .error (wrongKind .empty t p) := by
      rw [Schema.parseGated, Schema.gate, h.kinds, KindSet.contains_empty]
      rfl
    show Meets γ (s.parseGated t p) (s'.parseGated t p)
    rw [hgate]
    exact .met (hx p)

/-! ### Adapters -/

theorem Schema.tryMap_parseGated (f : α → Except String β) (s : Schema α) (p : Path) :
    (s.tryMap f).parseGated t p = s.parseGated t p >>= fun a => convert f a p := by
  change (s.gate t p >>= fun _ => s.parse t p >>= fun a => convert f a p) =
    (s.gate t p >>= fun _ => s.parse t p) >>= fun a => convert f a p
  cases s.gate t p <;> rfl

theorem meeting.map (f : α → β) {s s' : Schema α} (h : meeting γ t s s') :
    meeting γ t (s.map f) (s'.map f) := by
  rcases h with h | h
  · exact .inl ⟨h.kinds_eq, h.accepts, fun p => (h.parse p).map f⟩
  · refine .inr ⟨h.kinds, fun p => map_eq_error.mpr (h.parse p), ?_⟩
    obtain ⟨δ, x, hx⟩ := h.fails
    refine ⟨δ, x, fun p err he => ?_⟩
    rw [Schema.map_parseGated, hx p err he]
    rfl

theorem meeting.tryMap (f : α → Except String β) {s s' : Schema α} (h : meeting γ t s s') :
    meeting γ t (s.tryMap f) (s'.tryMap f) := by
  rcases h with h | h
  · refine .inl ⟨h.kinds_eq, h.accepts, fun p => ?_⟩
    exact (h.parse p).bind fun a => (Meets.walks γ).convert f a p
  · refine .inr ⟨h.kinds, fun p => bind_eq_error.mpr (.inl (h.parse p)), ?_⟩
    obtain ⟨δ, x, hx⟩ := h.fails
    refine ⟨δ, x, fun p err he => ?_⟩
    rw [Schema.tryMap_parseGated, hx p err he]
    rfl

/-! ### All schemas -/

theorem meeting_governs (γ : Refs Γ) : (Meets.walks γ).Governs (meeting γ) where
  congr {t _ s₁ s₂ s₁' s₂'} hs hs' hR := by
    rcases hR with h | h
    · refine .inl ⟨hs.kinds ▸ hs'.kinds ▸ h.kinds_eq, hs.kinds ▸ h.accepts, fun p => ?_⟩
      rw [← hs.parse, ← hs'.parse]
      exact h.parse p
    · obtain ⟨δ, x, hx⟩ := h.fails
      refine .inr ⟨hs.kinds ▸ h.kinds, fun p => hs.parse ▸ h.parse p, δ, x, fun p => ?_⟩
      rw [← hs'.gated.parse]
      exact hx p
  behindGate hR := hR.behindGate
  ofOutcomes hkinds haccepts hparse := .inl ⟨hkinds, haccepts, hparse⟩
  map f _ _ hR := hR.map f
  tryMap f _ _ hR := hR.tryMap f

theorem meeting_compositional (γ : Refs Γ) :
    Compositional .asIs .asIs (meeting γ) (Meets.walks γ).behindGate (Meets.walks γ).onFields :=
  (meeting_governs γ).compositional

end Relation

/-! ### Free references -/

namespace Refs

theorem Related.of_get {P : ∀ {α : Type}, Schema α → Schema α → Prop} : ∀ {Γ : List Type}
    {γ γ' : Refs Γ}, (∀ (α : Type) (x : Ref Γ α), P (γ.get x) (γ'.get x)) → Related @P γ γ'
  | _, .nil, .nil, _ => .nil
  | _, .cons _ _, .cons _ _, h => .cons (h _ .here) (of_get fun α x => h α (.there x))

theorem get_detached : ∀ {Γ : List Type} (x : Ref Γ α), (detached : Refs Γ).get x = .detached
  | _, .here => rfl
  | _, .there x => get_detached x

theorem get_probes (report : Kind → Route → ParseError) : ∀ {Γ : List Type} (x : Ref Γ α),
    (probes report : Refs Γ).get x = .probe report
  | _, .here => rfl
  | _, .there x => get_probes report x

theorem related_meeting (γ : Refs Γ) (t : Tree) : Related (meeting γ t) detached γ :=
  .of_get fun α x => by
    rw [get_detached]
    exact .inr ⟨rfl, fun _ => rfl, α, x, fun _ _ => id⟩

end Refs

/-- A probe reports behind the gate too. -/
theorem Schema.parseGated_probe (report : Kind → Route → ParseError) (t : Tree) (p : Path) :
    (Schema.probe report : Schema α).parseGated t p = .error (report t.kind p) := by
  rw [parseGated, gate, probe, KindSet.contains_all]
  rfl

namespace SchemaTerm

/-- The two readings of a term are related on every tree. -/
theorem meeting_detached (e : SchemaTerm [] Γ α) (γ : Refs Γ) (t : Tree) :
    meeting γ t (e.schema .nil .detached) (e.schema .nil γ) :=
  e.related (meeting_compositional γ) t .nil fun u _ => Refs.related_meeting γ u

theorem meets_run (e : SchemaTerm [] Γ α) (γ : Refs Γ) (t : Tree) :
    Meets γ ((e.schema .nil .detached).run t) ((e.schema .nil γ).run t) :=
  (e.meeting_detached γ t).behindGate .root

/-- A term accepts no kind if and only if it is a reference without an owner. -/
theorem kinds_eq_empty : ∀ {Δ Γ : List Type} {α : Type} (e : SchemaTerm Δ Γ α) (δ : Refs Δ),
    (e.schema δ .detached).kinds = .empty ↔ e.IsReference
  | _, _, _, .leaf l, _ => by
    simp only [schema, interpret, IsReference, iff_false]
    cases l <;> decide
  | _, _, _, .payload p, _ => by
    simp only [schema, interpret, IsReference, iff_false, p.interpret_eq_read, p.kinds_read]
    exact KindSet.single_ne_empty _
  | _, _, _, .enum _, _ | _, _, _, .option _, _ | _, _, _, .array _, _
  | _, _, _, .mapping _ _, _ => by
    simp only [schema, interpret, IsReference, iff_false]
    exact KindSet.single_ne_empty _
  | _, _, _, .recursive body, δ => by
    simp only [schema, interpret, IsReference]
    exact body.kinds_eq_empty (.cons .detached δ)
  | _, _, _, .reference x, _ => by
    simp only [schema, interpret, IsReference, iff_true, Refs.get_detached]
    rfl
  | _, _, _, .boxed s, δ | _, _, _, .map _ s, δ | _, _, _, .tryMap _ s, δ => by
    simp only [schema, interpret, IsReference]
    exact s.kinds_eq_empty δ

/-- **The parse fails for having met no kind exactly where it comes to a free reference.** -/
theorem reaches_iff (e : SchemaTerm [] Γ α) {t : Tree} {k : Kind} {q : Route} :
    e.Reaches t k q ↔ (e.schema .nil .detached).run t = .error ⟨.wrongKind .empty k, q⟩ := by
  constructor
  · intro hreach
    -- Probes that report what the gate says tell the two readings apart nowhere.
    have hmeet := e.meets_run (.probes fun k q => ⟨.wrongKind .empty k, q⟩) t
    rw [hreach] at hmeet
    generalize (e.schema .nil .detached).run t = x at hmeet
    cases hmeet with
    | same => rfl
    | met h =>
      have hreport := h _ (by rw [Refs.get_probes, Schema.parseGated_probe])
      exact hreport.symm
  · intro hrun report
    have hmeet := e.meets_run (.probes report) t
    rw [hrun] at hmeet
    generalize hy : (e.schema .nil (.probes report)).run t = y at hmeet
    generalize hx : (Except.error ⟨.wrongKind .empty k, q⟩ : Except ParseError α) = x at hmeet
    cases hmeet with
    | same h => exact absurd rfl (h _ hx.symm)
    | met h =>
      obtain ⟨rfl, rfl⟩ : _ = k ∧ _ = q := by simpa [wrongKind, eq_comm] using hx
      exact h _ (by rw [Refs.get_probes, Schema.parseGated_probe])

/-- A parse that comes to no free reference does not depend on what these are. -/
theorem run_eq_of_not_reaches (e : SchemaTerm [] Γ α) {t : Tree} (h : ∀ k q, ¬ e.Reaches t k q)
    (γ : Refs Γ) : (e.schema .nil γ).run t = (e.schema .nil .detached).run t := by
  have hmeet := e.meets_run γ t
  generalize hx : (e.schema .nil .detached).run t = x at hmeet
  cases hmeet with
  | same => rfl
  | met => exact absurd (e.reaches_iff.mpr hx) (h _ _)

/-- Without the gate, a term reports that an owner is gone only if it is a reference. -/
theorem parse_eq_detached (e : SchemaTerm [] Γ α) {t : Tree} {p : Path} {err : ParseError} :
    (e.schema .nil .detached).parse t p = .error err ∧ err.cause.kind = .detached ↔
      e.IsReference ∧ err = ⟨.detached, p⟩ := by
  rw [← e.kinds_eq_empty .nil]
  rcases e.meeting_detached .detached t with h | h
  · exact ⟨fun ⟨herr, hkind⟩ => absurd hkind ((h.parse p).ne_detached herr),
      fun ⟨hkinds, _⟩ => absurd hkinds h.accepts⟩
  · rw [h.parse p, Except.error.injEq]
    constructor
    · rintro ⟨rfl, -⟩
      exact ⟨h.kinds, rfl⟩
    · rintro ⟨-, rfl⟩
      exact ⟨rfl, rfl⟩

end SchemaTerm

/-- **Behind the gate no schema reports that an owner is gone.** Let some references of a schema
have lost their owners. Parsing a whole tree never fails for that, whatever the limit of depth.
It fails for a node of which no kind is expected exactly where it comes to such a reference; if
it comes to none, the outcome is the one of any owners. Without the gate the loss is reported
by the check and by the parse of a schema that is such a reference itself, at the path at
hand, and by no other, and never by a payload. -/
theorem detached_behind_gate {Γ : List Type} {α : Type} :
    (∀ (e : SchemaTerm [] Γ α) (t : Tree), let s := e.schema .nil .detached
      (∀ err, s.run t = .error err → err.cause.kind ≠ .detached) ∧
      (∀ limit err, s.runWithin limit t = .error err → err.cause.kind ≠ .detached) ∧
      (∀ k q, e.Reaches t k q ↔ s.run t = .error ⟨.wrongKind .empty k, q⟩) ∧
      (∀ limit k q, t.depth ≤ limit →
        (e.Reaches t k q ↔ s.runWithin limit t = .error ⟨.wrongKind .empty k, q⟩)) ∧
      ((∀ k q, ¬ e.Reaches t k q) → ∀ γ, (e.schema .nil γ).run t = s.run t) ∧
      ∀ p err,
        (s.parse t p = .error err ∧ err.cause.kind = .detached ↔
          e.IsReference ∧ err = ⟨.detached, p⟩) ∧
        (s.validate t p = .error err ∧ err.cause.kind = .detached ↔
          e.IsReference ∧ err = ⟨.detached, p⟩)) ∧
    (∀ (e : PayloadTerm Γ α) (fields : List Tree) (p : Path) (err : ParseError),
      (e.toPayload .detached).parseFields fields p = .error err ∨
        (e.toPayload .detached).validateFields fields p = .error err →
      err.cause.kind ≠ .detached) ∧
    ∀ k : Kind, (Cause.wrongKind .empty k).message = "expected no kind, got " ++ k.name := by
  refine ⟨fun e t => ?_, fun e fields p err herr => ?_, fun k => rfl⟩
  · intro s
    have hrun : ∀ err, s.run t = .error err → err.cause.kind ≠ .detached :=
      fun err => (e.meets_run .detached t).ne_detached
    have hlimit : ∀ {limit}, t.depth ≤ limit → s.runWithin limit t = s.run t :=
      fun h => if_neg (Nat.not_lt.mpr h)
    refine ⟨hrun, fun limit err herr => ?_, fun k q => e.reaches_iff, fun limit k q hdepth => ?_,
      fun h γ => e.run_eq_of_not_reaches h γ, fun p err => ⟨e.parse_eq_detached, ?_⟩⟩
    · by_cases hdepth : t.depth ≤ limit
      · exact hrun err (hlimit hdepth ▸ herr)
      · rw [Schema.runWithin, if_pos (Nat.lt_of_not_le hdepth)] at herr
        obtain rfl := Except.error.inj herr
        nofun
    · rw [hlimit hdepth]
      exact e.reaches_iff
    · have hagree : s.AgreesOn t :=
        e.related agreement_compositional t .nil fun u _ => Refs.agreesOn_detached u
      rw [hagree p, verdict, map_eq_error]
      exact e.parse_eq_detached
  · have hheights : ∀ u ∈ fields, u.height < Tree.heightList fields + 1 :=
      fun u hu => Nat.lt_succ_of_le (Tree.height_le_heightList hu)
    have hmeet : (Meets.walks .detached).onFields fields (e.toPayload .detached)
        (e.toPayload .detached) :=
      e.related (meeting_compositional .detached) hheights fun u _ => Refs.related_meeting _ u
    have hagree : (e.toPayload .detached).AgreesOn fields :=
      e.related agreement_compositional hheights fun u _ => Refs.agreesOn_detached u
    rw [hagree p, verdict, map_eq_error, or_self] at herr
    exact (hmeet p).ne_detached herr

/-- The second part of a pair is a number that a lost owner reads: a text there is met as no
kind. Such a reference reports the loss on its own if it is run without the gate. -/
theorem detached_behind_gate_pair :
    let e : SchemaTerm [] [Nat] (Tuple [Bool, Nat]) :=
      .payload (.fixedTuple (.cons (.leaf .bool) (.cons (.map Nat.succ (.boxed (.reference .here)))
        .nil)))
    let e' : SchemaTerm [] [Nat] Nat :=
      .recursive (.map Nat.succ (.tryMap Except.ok (.reference .here)))
    let t : Tree := .tuple {} [.leaf {} (.bool true), .leaf {} (.string "x")]
    e.Reaches t .string [.index 1] ∧
      (∀ err, (e.schema .nil .detached).run t = .error err → err.cause.kind ≠ .detached) ∧
      ∀ p, (e'.schema .nil .detached).validate t p = .error ⟨.detached, p⟩ := by
  intro e e' t
  have hrun : (e.schema .nil .detached).run t = .error ⟨.wrongKind .empty .string, [.index 1]⟩ := by
    simp only [e, t, SchemaTerm.schema, SchemaTerm.interpret, PayloadTerm.interpret,
      PlaceTerms.interpret]
    rfl
  obtain ⟨hkind, -, hreaches, -⟩ := (detached_behind_gate (Γ := [Nat])).1 e t
  have he' : e'.IsReference := trivial
  have hungated := fun p => ((detached_behind_gate (Γ := [Nat])).1 e' t).2.2.2.2.2 p ⟨.detached, p⟩
  exact ⟨(hreaches _ _).mpr hrun, hkind, fun p => ((hungated p).2.mpr ⟨he', rfl⟩).1⟩

end SborSchema
