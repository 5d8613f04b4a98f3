/-
# Trees in their places

A schema is told the path to the tree it is run on, and hands it on, one step
longer, to the schemas of the parts. It reads the path nowhere else than in the
failures it reports, which name the place and leave it out of their wording. So
a tree has the same outcome wherever it stands, except that a failure met
below a path names the steps of that path first (`outcome_eq_under`).

Steps keep this (`placing`), hence the walks of all composites do. The checks
follow from the parses, of which they are the verdicts.

Key definitions: `Path.append`, `under`, `placing`, `Schema.PlacedOn`.
Key theorems: `under_bind`, `under_eq_error`, `placement_governs`,
`SchemaTerm.placedOn`, `PayloadTerm.placedOn`, `outcome_eq_under`.
-/
import SborSchema.Proofs.Schema.Agreement
import SborSchema.Proofs.Schema.Walk

namespace SborSchema

variable {Γ : List Type} {α β : Type}

/-! ### Outcomes below a path -/

/-- The place that a path leads to from another place. -/
def Path.append (p₀ : Path) : Path → Path
  | .root => p₀
  | .step p segment => (p₀.append p).step segment

instance : Append Path := ⟨Path.append⟩

theorem Path.segments_append (p₀ p : Path) :
    (p₀ ++ p).segments = p₀.segments ++ p.segments := by
  induction p with
  | root =>
    rw [segments_root, List.append_nil]
    rfl
  | step p segment ih =>
    calc ((p₀ ++ p).step segment).segments
        = p₀.segments ++ p.segments ++ [segment] := by rw [segments_step, ih]
      _ = p₀.segments ++ (p.step segment).segments := by rw [segments_step, List.append_assoc]

/-- An outcome as it is met below a path: a failure names the steps of the path in front of
its own. -/
def under (p : Path) (x : Except ParseError α) : Except ParseError α :=
  x.mapError fun err => ⟨err.cause, p.segments ++ err.path⟩

section Under

variable {p : Path} {x : Except ParseError α}

theorem under_ok (p : Path) (a : α) : under p (.ok a) = .ok a := rfl

theorem under_error (p : Path) (err : ParseError) :
    under p (.error err : Except ParseError α) = .error ⟨err.cause, p.segments ++ err.path⟩ := rfl

/-- What is reported at a path is reported below another one at the two together. -/
theorem under_error_at (p₀ p : Path) (c : Cause) :
    under p₀ (.error ⟨c, p⟩ : Except ParseError α) = .error ⟨c, (p₀ ++ p).segments⟩ := by
  rw [under_error, Path.segments_append]

/-- A walk below a path takes its steps there. -/
theorem under_bind (p : Path) (x : Except ParseError α) (f : α → Except ParseError β) :
    under p (x >>= f) = under p x >>= fun a => under p (f a) := by
  cases x <;> rfl

theorem verdict_under (p : Path) (x : Except ParseError α) :
    verdict (under p x) = under p (verdict x) := by
  cases x <;> rfl

theorem under_eq_ok {a : α} : under p x = .ok a ↔ x = .ok a := mapError_eq_ok

theorem under_eq_error {err : ParseError} :
    under p x = .error err ↔
      ∃ err', x = .error err' ∧ err = ⟨err'.cause, p.segments ++ err'.path⟩ := by
  cases x with
  | ok a =>
    rw [under_ok]
    simp only [reduceCtorEq, false_and, exists_false]
  | error err' =>
    rw [under_error]
    simp only [Except.error.injEq, exists_eq_left', eq_comm]

/-- Written out, the steps of one route stand in front of those of the other. -/
theorem Route.texts_append (r r' : Route) : texts (r ++ r') = r.texts ++ r'.texts :=
  List.map_append

end Under

/-- Outcomes below a path on the left, and without it on the right, as a relation that walks
pass on. -/
def placing (p₀ : Path) : OutcomeRelation where
  Holds x y := x = under p₀ y
  place p := p₀ ++ p
  place_step _ _ := rfl
  ok a := (under_ok p₀ a).symm
  error _ p := (under_error_at p₀ p _).symm
  bind {_ _ x y f g} hxy hfg := by
    have hsteps : f = fun a => under p₀ (g a) := funext hfg
    rw [hxy, hsteps, under_bind]

/-! ### Schemas below a path -/

/-- On a tree, the outcome of the first schema below a path is that of the second one
without it. -/
structure Schema.PlacedOn (p₀ : Path) (t : Tree) (s s' : Schema α) : Prop where
  kinds_eq : s.kinds = s'.kinds
  parse (p : Path) : s.parse t (p₀ ++ p) = under p₀ (s'.parse t p)

namespace Schema

variable {p₀ : Path} {t : Tree} {s s' : Schema α}

theorem PlacedOn.behindGate (h : s.PlacedOn p₀ t s') : (placing p₀).behindGate t s s' := by
  intro p
  have hgate : s.gate t (p₀ ++ p) = under p₀ (s'.gate t p) := by
    rw [gate, gate, h.kinds_eq]
    by_cases hkind : s'.kinds.contains t.kind = true
    · rw [if_pos hkind, if_pos hkind, under_ok]
    · rw [if_neg hkind, if_neg hkind]
      exact (under_error_at p₀ p _).symm
  exact (placing p₀).bind hgate fun _ => h.parse p

theorem PlacedOn.map (f : α → β) (h : s.PlacedOn p₀ t s') : (s.map f).PlacedOn p₀ t (s'.map f) :=
  ⟨h.kinds_eq, fun p => (placing p₀).bind (h.parse p) fun a => (under_ok p₀ (f a)).symm⟩

theorem PlacedOn.tryMap (f : α → Except String β) (h : s.PlacedOn p₀ t s') :
    (s.tryMap f).PlacedOn p₀ t (s'.tryMap f) :=
  ⟨h.kinds_eq, fun p => (placing p₀).bind (h.parse p) fun a => (placing p₀).convert f a p⟩

end Schema

/-! ### All schemas -/

theorem placement_governs (p₀ : Path) :
    (placing p₀).Governs fun t _ s s' => s.PlacedOn p₀ t s' where
  congr hs hs' hR := by
    refine ⟨hs.kinds ▸ hs'.kinds ▸ hR.kinds_eq, fun p => ?_⟩
    rw [← hs.parse, ← hs'.parse]
    exact hR.parse p
  behindGate hR := hR.behindGate
  ofOutcomes hkinds _ hparse := ⟨hkinds, hparse⟩
  map f _ _ hR := hR.map f
  tryMap f _ _ hR := hR.tryMap f

/-- A reference without an owner reports its loss at the place of the tree. -/
theorem Refs.placedOn_detached (p₀ : Path) (t : Tree) : ∀ {Γ : List Type},
    Refs.Related (fun s s' => s.PlacedOn p₀ t s') (detached : Refs Γ) detached
  | [] => .nil
  | _ :: _ => .cons ⟨rfl, fun p => (under_error_at p₀ p _).symm⟩ (placedOn_detached p₀ t)

theorem SchemaTerm.placedOn (e : SchemaTerm [] Γ α) (p₀ : Path) (t : Tree) :
    (e.schema .nil .detached).PlacedOn p₀ t (e.schema .nil .detached) :=
  e.related (placement_governs p₀).compositional t .nil fun u _ => Refs.placedOn_detached p₀ u

theorem PayloadTerm.placedOn (e : PayloadTerm Γ α) (p₀ : Path) (fields : List Tree) :
    (placing p₀).onFields fields (e.toPayload .detached) (e.toPayload .detached) :=
  e.related (placement_governs p₀).compositional (fun _ => Tree.height_lt_of_mem) fun u _ =>
    Refs.placedOn_detached p₀ u

/-- **Where a tree stands changes the path of a failure and nothing else.** At every path, a
schema parses a tree as it does at the root, and a payload a list of fields, up to the steps of
the path in front of those a failure names. The checks do the same. So there is a success at the
path if and only if there is one at the root, with the same value; and a failure at the path is
one at the root, of the same kind, in the same words, with the steps of the path written in front
of its own. -/
theorem outcome_eq_under :
    (∀ {Γ : List Type} {α : Type} (e : SchemaTerm [] Γ α) (t : Tree) (p : Path),
      let s := e.schema .nil .detached
      s.parse t p = under p (s.parse t .root) ∧ s.validate t p = under p (s.validate t .root)) ∧
    (∀ {Γ : List Type} {α : Type} (e : PayloadTerm Γ α) (fields : List Tree) (p : Path),
      let q := e.toPayload .detached
      q.parseFields fields p = under p (q.parseFields fields .root) ∧
        q.validateFields fields p = under p (q.validateFields fields .root)) ∧
    ∀ {α : Type} (p : Path) (atRoot : Except ParseError α),
      (∀ a, under p atRoot = .ok a ↔ atRoot = .ok a) ∧
      ∀ err, under p atRoot = .error err → ∃ err', atRoot = .error err' ∧
        err.cause.kind = err'.cause.kind ∧ err.cause.message = err'.cause.message ∧
        err.path = p.segments ++ err'.path ∧ err.path.texts = p.texts ++ err'.path.texts := by
  refine ⟨fun e t p => ?_, fun e fields p => ?_, fun p atRoot => ⟨fun a => under_eq_ok, ?_⟩⟩
  · intro s
    have hagree : s.AgreesOn t := e.agreesOn t
    have hparse : s.parse t p = under p (s.parse t .root) := (e.placedOn p t).parse .root
    refine ⟨hparse, ?_⟩
    rw [hagree, hagree, hparse, verdict_under]
  · intro q
    have hagree : q.AgreesOn fields := e.agreesOn fields
    have hparse : q.parseFields fields p = under p (q.parseFields fields .root) :=
      e.placedOn p fields .root
    refine ⟨hparse, ?_⟩
    rw [hagree, hagree, hparse, verdict_under]
  · intro err hplaced
    obtain ⟨err', hroot, rfl⟩ := under_eq_error.mp hplaced
    exact ⟨err', hroot, rfl, rfl, rfl, Route.texts_append p err'.path⟩

/-- A conversion in a field of an element refuses its value: the place of the array is named
first, and the words are those at the root. -/
theorem outcome_eq_under_rejected :
    let e : SchemaTerm [] [] (List (Tuple [Nat])) :=
      .array (.payload (.fixedStruct (.cons "a"
        (.tryMap (fun b : Bool => if b then .ok 1 else .error "no") (.leaf .bool)) .nil)))
    let t : Tree := .array {} .tuple [.tuple {} [.leaf ⟨none, some "a"⟩ (.bool false)]]
    let p := (Path.root.field "items").index 3
    ∃ err err', (e.schema .nil .detached).parse t p = .error err ∧
      (e.schema .nil .detached).parse t .root = .error err' ∧
      err'.path = [.index 0, .field "a"] ∧ err.path.texts = ["items", "3", "0", "a"] ∧
      err.cause.message = "no" ∧ err'.cause.message = "no" := by
  intro e t p
  obtain ⟨hplaced, -⟩ := outcome_eq_under.1 e t p
  have hroot : (e.schema .nil .detached).parse t .root =
      .error ⟨.rejected "no", [.index 0, .field "a"]⟩ := by
    simp only [e, t, SchemaTerm.schema, SchemaTerm.interpret, PayloadTerm.interpret,
      NamedPlaceTerms.interpret]
    rfl
  rw [hroot] at hplaced ⊢
  obtain ⟨err', herr', -, hmessage, -, htexts⟩ :=
    (outcome_eq_under.2.2 p (.error ⟨.rejected "no", [.index 0, .field "a"]⟩ :
      Except ParseError (List (Tuple [Nat])))).2 _ rfl
  obtain rfl := Except.error.inj herr'
  exact ⟨_, _, hplaced, rfl, rfl, htexts.trans (by decide), hmessage, rfl⟩

end SborSchema
