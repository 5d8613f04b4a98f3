/-
# Schemas whose outcomes correspond

Two schemas, perhaps of values of different types, correspond if on every tree
both succeed, with values that a given relation connects, or both fail. Whether
they have to fail with the same error is a condition that outcomes carry along:
where parts stand in another order, another one of several faults is met first.
Composites of parts that correspond correspond: arrays and maps item by item,
structs and tuples place by place, enums by the first variant of each name.

Key definitions: `OutcomesMatch`, `Schema.Matches`, `Payload.Matches`, `Variant.Matches`,
`Placed`, `Payload.structAllowing`.
Key theorems: `OutcomesMatch.bind`, `OutcomesMatch.trans`, `OutcomesMatch.mapM`,
`Schema.array_matches`, `Schema.mapping_matches`, `Payload.structAllowing_matches`,
`Payload.tuple_matches`, `Schema.enum_matches`, `Schema.option_matches`.
-/
import SborSchema.Proofs.Lists
import SborSchema.Proofs.Outcome
import SborSchema.Proofs.Schema.Arity
import SborSchema.Proofs.Schema.Related
import SborSchema.Proofs.Schema.Variant

namespace SborSchema

variable {ε α β γ δ κ κ' ν ν' : Type} {exact : Prop}

/-! ### Outcomes -/

/-- Two successes with related values, or two failures, with one error if it has to be the
same. -/
inductive OutcomesMatch (exact : Prop) (R : α → β → Prop) : Except ε α → Except ε β → Prop
  | ok {a : α} {b : β} (h : R a b) : OutcomesMatch exact R (.ok a) (.ok b)
  | error {e e' : ε} (h : exact → e = e') : OutcomesMatch exact R (.error e) (.error e')

namespace OutcomesMatch

variable {R : α → β → Prop} {S : γ → δ → Prop} {x : Except ε α} {y : Except ε β}

theorem refl {R : α → α → Prop} (hR : ∀ a, R a a) (x : Except ε α) : OutcomesMatch exact R x x := by
  cases x with
  | ok a => exact .ok (hR a)
  | error e => exact .error fun _ => rfl

/-- Steps that match, after steps that match. -/
theorem bind {f : α → Except ε γ} {g : β → Except ε δ} (hxy : OutcomesMatch exact R x y)
    (hfg : ∀ a b, R a b → OutcomesMatch exact S (f a) (g b)) :
    OutcomesMatch exact S (x >>= f) (y >>= g) := by
  cases hxy with
  | ok h => exact hfg _ _ h
  | error h => exact .error h

theorem map {f : α → γ} {g : β → δ} (hxy : OutcomesMatch exact R x y)
    (hfg : ∀ a b, R a b → S (f a) (g b)) : OutcomesMatch exact S (x.map f) (y.map g) := by
  cases hxy with
  | ok h => exact .ok (hfg _ _ h)
  | error h => exact .error h

/-- What is known of the values that come out may be used to relate them otherwise. -/
theorem imp {R' : α → β → Prop} (hxy : OutcomesMatch exact R x y)
    (hRR' : ∀ a b, x = .ok a → y = .ok b → R a b → R' a b) : OutcomesMatch exact R' x y := by
  cases hxy with
  | ok h => exact .ok (hRR' _ _ rfl rfl h)
  | error h => exact .error h

theorem trans {R' : β → γ → Prop} {z : Except ε γ} (hxy : OutcomesMatch exact R x y)
    (hyz : OutcomesMatch exact R' y z) : OutcomesMatch exact (Relation.Comp R R') x z := by
  cases hxy with
  | ok h =>
    cases hyz with
    | ok h' => exact .ok ⟨_, h, h'⟩
  | error h =>
    cases hyz with
    | error h' => exact .error fun hexact => (h hexact).trans (h' hexact)

/-- Both succeed with related values, or both fail with the same error. -/
theorem ok_or_error (hxy : OutcomesMatch True R x y) :
    (∃ a b, x = .ok a ∧ y = .ok b ∧ R a b) ∨ ∃ e, x = .error e ∧ y = .error e := by
  cases hxy with
  | ok h => exact .inl ⟨_, _, rfl, rfl, h⟩
  | error h => exact .inr ⟨_, rfl, by rw [h trivial]⟩

/-- One succeeds if the other does, and their values are related then. -/
theorem ok_iff_ok (hxy : OutcomesMatch exact R x y) :
    ((∃ a, x = .ok a) ↔ ∃ b, y = .ok b) ∧ ∀ a b, x = .ok a → y = .ok b → R a b := by
  cases hxy with
  | @ok a b h =>
    refine ⟨⟨fun _ => ⟨b, rfl⟩, fun _ => ⟨a, rfl⟩⟩, ?_⟩
    rintro _ _ ⟨⟩ ⟨⟩
    exact h
  | error h => exact ⟨⟨nofun, nofun⟩, nofun⟩

end OutcomesMatch

/-- The two schemas have matching outcomes on every tree. -/
def Schema.Matches (exact : Prop) (R : α → β → Prop) (s : Schema α) (s' : Schema β) : Prop :=
  ∀ t p, OutcomesMatch exact R (s.parseGated t p) (s'.parseGated t p)

/-- The two payloads have matching outcomes on every list of fields. -/
def Payload.Matches (exact : Prop) (R : α → β → Prop) (q : Payload α) (q' : Payload β) : Prop :=
  ∀ fields p, OutcomesMatch exact R (q.parseFields fields p) (q'.parseFields fields p)

section Adapters

variable {R : α → β → Prop} {S : γ → δ → Prop}

/-- Schemas of the same kinds need to be compared behind the gate only. -/
theorem Schema.Matches.of_parse {s : Schema α} {s' : Schema β} (hkinds : s.kinds = s'.kinds)
    (h : ∀ t p, OutcomesMatch exact R (s.parse t p) (s'.parse t p)) : s.Matches exact R s' := by
  intro t p
  have hgate : s.gate t p = s'.gate t p := by
    rw [gate, gate, hkinds]
  rw [parseGated, parseGated, hgate]
  exact (OutcomesMatch.refl (fun _ => rfl) (s'.gate t p)).bind fun _ _ _ => h t p

theorem Schema.Matches.map {f : α → γ} {g : β → δ} {s : Schema α} {s' : Schema β}
    (h : s.Matches exact R s') (hfg : ∀ a b, R a b → S (f a) (g b)) :
    (s.map f).Matches exact S (s'.map g) := by
  intro t p
  rw [map_parseGated, map_parseGated]
  exact (h t p).map hfg

theorem Schema.map_comp (f : α → β) (g : β → γ) (s : Schema α) :
    s.map (g ∘ f) = (s.map f).map g := by
  simp only [map, map_map]

theorem Payload.Matches.trans {R' : β → γ → Prop} {q : Payload α} {q' : Payload β}
    {q'' : Payload γ} (h : q.Matches exact R q') (h' : q'.Matches exact R' q'') :
    q.Matches exact (Relation.Comp R R') q'' :=
  fun fields p => (h fields p).trans (h' fields p)

theorem Payload.Matches.map {f : α → γ} {g : β → δ} {q : Payload α} {q' : Payload β}
    (h : q.Matches exact R q') (hfg : ∀ a b, R a b → S (f a) (g b)) :
    (q.map f).Matches exact S (q'.map g) :=
  fun fields p => (h fields p).map hfg

end Adapters

/-! ### Arrays and maps -/

namespace Schema

variable {R : α → β → Prop} {K : κ → κ' → Prop} {V : ν → ν' → Prop} {p : Path}

theorem parseElements_matches {s : Schema α} {s' : Schema β} (h : s.Matches exact R s') :
    ∀ (ts : List Tree) (i : Nat), OutcomesMatch exact (List.Forall₂ R)
      (parseElements s ts i p) (parseElements s' ts i p)
  | [], _ => .ok .nil
  | t :: ts, i => by
    have tail := parseElements_matches h ts (i + 1)
    exact (h t _).bind fun a b hab => tail.bind fun as bs habs => .ok (.cons hab habs)

theorem parseEntries_matches {k : Schema κ} {k' : Schema κ'} {v : Schema ν} {v' : Schema ν'}
    (hk : k.Matches exact K k') (hv : v.Matches exact V v') :
    ∀ (es : List (Tree × Tree)) (i : Nat),
      OutcomesMatch exact (List.Forall₂ fun e e' => K e.1 e'.1 ∧ V e.2 e'.2)
        (parseEntries k v es i p) (parseEntries k' v' es i p)
  | [], _ => .ok .nil
  | (t, u) :: es, i => by
    have tail := parseEntries_matches hk hv es (i + 1)
    refine (hk t _).bind fun a a' ha => (hv u _).bind fun b b' hb => ?_
    exact tail.bind fun rest rest' hrest => .ok (.cons ⟨ha, hb⟩ hrest)

theorem array_matches {s : Schema α} {s' : Schema β} (h : s.Matches exact R s') :
    (array s).Matches exact (List.Forall₂ R) (array s') := by
  refine .of_parse rfl fun t p => ?_
  cases t with
  | array l k elements => exact parseElements_matches h elements 0
  | leaf | map | tuple | enum => exact .error fun _ => rfl

theorem mapping_matches {k : Schema κ} {k' : Schema κ'} {v : Schema ν} {v' : Schema ν'}
    (hk : k.Matches exact K k') (hv : v.Matches exact V v') :
    (mapping k v).Matches exact (List.Forall₂ fun e e' => K e.1 e'.1 ∧ V e.2 e'.2)
      (mapping k' v') := by
  refine .of_parse rfl fun t p => ?_
  cases t with
  | map l keyKind valueKind entries => exact parseEntries_matches hk hv entries 0
  | leaf | array | tuple | enum => exact .error fun _ => rfl

end Schema

/-! ### Places -/

variable {ι : Type}

/-- Two lists whose members at the place of each part are related by the part. -/
inductive Placed (R : ι → α → β → Prop) : List ι → List α → List β → Prop
  | nil : Placed R [] [] []
  | cons {x : ι} {parts : List ι} {a : α} {b : β} {as : List α} {bs : List β} (head : R x a b)
      (tail : Placed R parts as bs) : Placed R (x :: parts) (a :: as) (b :: bs)

namespace Placed

variable {R : ι → α → β → Prop} {parts : List ι} {as : List α} {bs : List β}

theorem map {S : ι → γ → δ → Prop} {f : α → γ} {g : β → δ} (h : Placed R parts as bs)
    (hRS : ∀ x a b, R x a b → S x (f a) (g b)) : Placed S parts (as.map f) (bs.map g) := by
  induction h with
  | nil => exact .nil
  | cons head _ ih => exact .cons (hRS _ _ _ head) ih

/-- What every part relates is related place by place. -/
theorem forall₂ {S : α → β → Prop} (h : Placed R parts as bs) (hRS : ∀ x a b, R x a b → S a b) :
    List.Forall₂ S as bs := by
  induction h with
  | nil => exact .nil
  | cons head _ ih => exact .cons (hRS _ _ _ head) ih

/-- What the members of the first list tell about their parts. -/
theorem map_eq {f : α → γ} {g : ι → γ} (h : Placed R parts as bs)
    (hR : ∀ x a b, R x a b → f a = g x) : as.map f = parts.map g := by
  induction h with
  | nil => rfl
  | cons head _ ih => rw [List.map_cons, List.map_cons, hR _ _ _ head, ih]

/-- Every part relates the members at its place. -/
theorem zip (h : Placed R parts as bs) : as.length = parts.length ∧ bs.length = parts.length ∧
    ∀ x a b, (x, a, b) ∈ parts.zip (as.zip bs) → R x a b := by
  induction h with
  | nil => exact ⟨rfl, rfl, nofun⟩
  | cons head _ ih =>
    obtain ⟨hleft, hright, hzip⟩ := ih
    refine ⟨congrArg (· + 1) hleft, congrArg (· + 1) hright, fun x a b hmem => ?_⟩
    rcases List.mem_cons.mp hmem with heq | htail
    · cases heq
      exact head
    · exact hzip x a b htail

end Placed

/-- Steps that match part by part make traversals that match. -/
theorem OutcomesMatch.mapM {R : ι → α → β → Prop} {f : ι → Except ε α} {g : ι → Except ε β} :
    ∀ {parts : List ι}, (∀ x ∈ parts, OutcomesMatch exact (R x) (f x) (g x)) →
    OutcomesMatch exact (Placed R parts) (parts.mapM f) (parts.mapM g)
  | [], _ => .ok .nil
  | x :: parts, h => by
    obtain ⟨head, hparts⟩ := List.forall_mem_cons.mp h
    have tail := OutcomesMatch.mapM hparts
    rw [List.mapM_cons, List.mapM_cons]
    exact head.bind fun a b hab => tail.bind fun as bs habs => .ok (.cons hab habs)

/-! ### Structs -/

namespace Payload

variable {children : List Tree} {p : Path}

/-- What a strict struct makes of one declared field. -/
def requiredField (children : List Tree) (p : Path) (f : String × Schema α) :
    Except ParseError (String × α) :=
  match Tree.child? f.1 children with
  | none => .error ⟨.missingFields [f.1], p⟩
  | some t => (f.2.parseGated t (p.field f.1)).map fun a => (f.1, a)

/-- What a lenient struct makes of one declared field. -/
def optionalField (children : List Tree) (p : Path) (f : String × Schema α) :
    Except ParseError (String × Option α) :=
  match Tree.child? f.1 children with
  | none => .ok (f.1, none)
  | some t => (f.2.parseGated t (p.field f.1)).map fun a => (f.1, some a)

theorem parseRequired_eq_mapM : ∀ fields : List (String × Schema α),
    parseRequired fields children p = fields.mapM (requiredField children p)
  | [] => rfl
  | (name, s) :: fields => by
    rw [parseRequired, List.mapM_cons, ← parseRequired_eq_mapM fields, requiredField]
    cases Tree.child? name children with
    | none => rfl
    | some t => simp only [bind_map]

theorem parsePresent_eq_mapM : ∀ fields : List (String × Schema α),
    parsePresent fields children p = fields.mapM (optionalField children p)
  | [] => rfl
  | (name, s) :: fields => by
    rw [parsePresent, List.mapM_cons, ← parsePresent_eq_mapM fields, optionalField]
    cases Tree.child? name children with
    | none => rfl
    | some t => simp only [bind_map]

/-- A struct by whether fields may be absent; a field that may not be is there. -/
def structAllowing : Bool → List (String × Schema α) → Payload (List (String × Option α))
  | false, fields => (struct fields).map (List.map fun g => (g.1, some g.2))
  | true, fields => lenientStruct fields

/-- One name with related values, or without any where that is allowed. -/
inductive FieldRelated (allowMissing : Bool) (name : String) (R : α → β → Prop) :
    String × Option α → String × Option β → Prop
  | present {a : α} {b : β} (h : R a b) :
      FieldRelated allowMissing name R (name, some a) (name, some b)
  | absent (h : allowMissing = true) : FieldRelated allowMissing name R (name, none) (name, none)

section Structs

variable {name : ι → String} {s : ι → Schema α} {s' : ι → Schema β} {R : ι → α → β → Prop}
  {parts : List ι}

theorem checkMissing_map (s : ι → Schema α) (s' : ι → Schema β) (parts : List ι) :
    checkMissing (parts.map fun x => (name x, s x)) children p =
      checkMissing (parts.map fun x => (name x, s' x)) children p := by
  rw [checkMissing, checkMissing, missingNames, missingNames, List.map_map, List.map_map]
  rfl

theorem struct_matches (h : ∀ x ∈ parts, (s x).Matches exact (R x) (s' x)) :
    (struct (parts.map fun x => (name x, s x))).Matches exact
      (Placed (fun x g g' => g.1 = name x ∧ g'.1 = name x ∧ R x g.2 g'.2) parts)
      (struct (parts.map fun x => (name x, s' x))) := by
  intro children p
  show OutcomesMatch exact _ (checkMissing _ children p >>= fun _ => parseRequired _ children p)
    (checkMissing _ children p >>= fun _ => parseRequired _ children p)
  rw [checkMissing_map s s', parseRequired_eq_mapM, parseRequired_eq_mapM, List.mapM_map,
    List.mapM_map]
  refine (OutcomesMatch.refl (fun _ => rfl) _).bind fun _ _ _ => .mapM fun x hx => ?_
  show OutcomesMatch exact _ (requiredField children p (name x, s x))
    (requiredField children p (name x, s' x))
  rw [requiredField, requiredField]
  cases Tree.child? (name x) children with
  | none => exact .error fun _ => rfl
  | some t => exact (h x hx t _).map fun a b hab => ⟨rfl, rfl, hab⟩

theorem lenientStruct_matches (h : ∀ x ∈ parts, (s x).Matches exact (R x) (s' x)) :
    (lenientStruct (parts.map fun x => (name x, s x))).Matches exact
      (Placed (fun x => FieldRelated true (name x) (R x)) parts)
      (lenientStruct (parts.map fun x => (name x, s' x))) := by
  intro children p
  show OutcomesMatch exact _ (parsePresent _ children p) (parsePresent _ children p)
  rw [parsePresent_eq_mapM, parsePresent_eq_mapM, List.mapM_map, List.mapM_map]
  refine .mapM fun x hx => ?_
  show OutcomesMatch exact _ (optionalField children p (name x, s x))
    (optionalField children p (name x, s' x))
  rw [optionalField, optionalField]
  cases Tree.child? (name x) children with
  | none => exact .ok (.absent rfl)
  | some t => exact (h x hx t _).map fun a b hab => .present hab

/-- **Structs over the same names match if their fields do.** -/
theorem structAllowing_matches (allowMissing : Bool)
    (h : ∀ x ∈ parts, (s x).Matches exact (R x) (s' x)) :
    (structAllowing allowMissing (parts.map fun x => (name x, s x))).Matches exact
      (Placed (fun x => FieldRelated allowMissing (name x) (R x)) parts)
      (structAllowing allowMissing (parts.map fun x => (name x, s' x))) := by
  cases allowMissing with
  | true => exact lenientStruct_matches h
  | false =>
    refine (struct_matches h).map fun _ _ hplaced => hplaced.map ?_
    rintro x ⟨_, a⟩ ⟨_, b⟩ ⟨rfl, rfl, hab⟩
    exact .present hab

end Structs

/-! ### Tuples -/

section Tuples

variable {s : ι → Schema α} {s' : ι → Schema β} {R : ι → α → β → Prop}

theorem parseEach_matches : ∀ {parts : List ι} {ts : List Tree} {i : Nat},
    (∀ x ∈ parts, (s x).Matches exact (R x) (s' x)) → ts.length = parts.length →
    OutcomesMatch exact (Placed R parts) (parseEach (parts.map s) ts i p)
      (parseEach (parts.map s') ts i p)
  | [], [], _, _, _ => .ok .nil
  | [], _ :: _, _, _, hlen => nomatch hlen
  | _ :: _, [], _, _, hlen => nomatch hlen
  | x :: parts, t :: ts, i, h, hlen => by
    obtain ⟨head, hparts⟩ := List.forall_mem_cons.mp h
    have tail := parseEach_matches (i := i + 1) hparts (Nat.succ.inj hlen)
    exact (head t _).bind fun a b hab => tail.bind fun as bs habs => .ok (.cons hab habs)

theorem tuple_matches {parts : List ι} (h : ∀ x ∈ parts, (s x).Matches exact (R x) (s' x)) :
    (tuple (parts.map s)).Matches exact (Placed R parts) (tuple (parts.map s')) := by
  intro children p
  show OutcomesMatch exact _
    (checkArity (parts.map s).length children p >>= fun _ => parseEach (parts.map s) children 0 p)
    (checkArity (parts.map s').length children p >>= fun _ =>
      parseEach (parts.map s') children 0 p)
  rw [List.length_map, List.length_map, checkArity]
  by_cases hlen : children.length = parts.length
  · rw [if_pos hlen]
    exact parseEach_matches h hlen
  · rw [if_neg hlen]
    exact .error fun _ => rfl

end Tuples

end Payload

/-! ### Enums -/

/-- Two variants of one name that are both units, or whose payloads match, with choices that
are related. -/
inductive Variant.Matches (exact : Prop) (T : Choice α → Choice β → Prop) :
    Variant α → Variant β → Prop
  | unit {name : String} (h : T ⟨name, none⟩ ⟨name, none⟩) :
      Matches exact T (.unit name) (.unit name)
  | new {name : String} {q : Payload α} {q' : Payload β}
      (h : q.Matches exact (fun a b => T ⟨name, some a⟩ ⟨name, some b⟩) q') :
      Matches exact T (.new name q) (.new name q')

section Enums

variable {T : Choice α → Choice β → Prop} {vs : List (Variant α)} {vs' : List (Variant β)}

/-- If the first variants of each name match, a node is refused on both sides or resolved to
variants that match over the same fields. -/
theorem Variant.resolve_matches (hnames : exact → vs.map (·.name) = vs'.map (·.name))
    (h : ∀ name, Option.Rel (Variant.Matches exact T) (vs.find? (·.name == name))
      (vs'.find? (·.name == name))) (t : Tree) (p : Path) :
    OutcomesMatch exact (fun r r' => Variant.Matches exact T r.1 r'.1 ∧ r'.2 = r.2)
      (resolve vs t p) (resolve vs' t p) := by
  cases t with
  | leaf | array | map | tuple => exact .error fun _ => rfl
  | enum l id name fields =>
    have hunknown : OutcomesMatch exact
        (fun r r' : _ × List Tree => Variant.Matches exact T r.1 r'.1 ∧ r'.2 = r.2)
        (.error (ParseError.mk (.unknownVariant name (vs.map (·.name))) p))
        (.error (ParseError.mk (.unknownVariant name (vs'.map (·.name))) p)) :=
      .error fun hexact => by rw [hnames hexact]
    cases name with
    | none => exact hunknown
    | some name =>
      -- Only the relation of what was found under the name is needed, not how.
      have hfound := h name
      simp only [resolve, Option.bind_some]
      generalize vs.find? (·.name == name) = found at hfound ⊢
      generalize vs'.find? (·.name == name) = found' at hfound ⊢
      cases hfound with
      | none => exact hunknown
      | some hv =>
        have hmatch := hv
        cases hv with
        | new => exact .ok ⟨hmatch, rfl⟩
        | unit =>
          -- Both are units, so both refuse fields, with the one number of them.
          by_cases hfields : fields.isEmpty = true
          · rw [hfields]
            exact .ok ⟨hmatch, rfl⟩
          · rw [Bool.eq_false_iff.mpr hfields]
            exact .error fun _ => rfl

/-- **Enums match if the first variants of each name do.** The order of the declared names
shows in an error only. -/
theorem Schema.enum_matches (hnames : exact → vs.map (·.name) = vs'.map (·.name))
    (h : ∀ name, Option.Rel (Variant.Matches exact T) (vs.find? (·.name == name))
      (vs'.find? (·.name == name))) : (enum vs).Matches exact T (enum vs') := by
  refine .of_parse rfl fun t p => (Variant.resolve_matches hnames h t p).bind ?_
  rintro ⟨v, fields⟩ ⟨v', _⟩ ⟨hv, rfl⟩
  cases hv with
  | unit hunit => exact .ok hunit
  | new hq => exact (hq _ _).bind fun a b hab => .ok hab

end Enums

/-! ### Options -/

section Options

variable {R : α → β → Prop} {s : Schema α} {s' : Schema β} {q : Payload α} {q' : Payload β}

/-- Two choices of the same variant of an option. -/
inductive Choice.OptionMatches (R : α → β → Prop) : Choice α → Choice β → Prop
  | unit : OptionMatches R ⟨"None", none⟩ ⟨"None", none⟩
  | payload {a : α} {b : β} (h : R a b) : OptionMatches R ⟨"Some", some a⟩ ⟨"Some", some b⟩

/-- Enums of the variants of an option match if the payloads do. -/
theorem Schema.optionEnum_matches (h : q.Matches exact R q') :
    (enum [.unit "None", .new "Some" q]).Matches exact (Choice.OptionMatches R)
      (enum [.unit "None", .new "Some" q']) := by
  refine enum_matches (fun _ => rfl) fun name => ?_
  by_cases hnone : "None" = name
  · subst hnone
    exact .some (.unit .unit)
  · by_cases hsome : "Some" = name
    · subst hsome
      exact .some (.new fun fields p => (h fields p).imp fun a b _ _ hab => .payload hab)
    · have hmissing {γ : Type} (q : Payload γ) :
          [Variant.unit "None", Variant.new "Some" q].find? (·.name == name) = none := by
        simp [Variant.unit, Variant.new, hnone, hsome]
      rw [hmissing q, hmissing q']
      exact .none

/-- The one place of a chosen option. -/
theorem Payload.fixedTuple_one_matches (h : s.Matches exact R s') :
    (fixedTuple (.cons s .nil)).Matches exact (fun a b => R a.1 b.1)
      (fixedTuple (.cons s' .nil)) := by
  intro children p
  show OutcomesMatch exact _
    (checkArity 1 children p >>= fun _ => Places.parseFrom 1 _ (.cons s .nil) children 0 p)
    (checkArity 1 children p >>= fun _ => Places.parseFrom 1 _ (.cons s' .nil) children 0 p)
  refine (OutcomesMatch.refl (fun _ => rfl) _).bind fun _ _ _ => ?_
  cases children with
  | nil => exact .error fun _ => rfl
  | cons t ts => exact (h t _).bind fun a b hab => .ok hab

/-- One place reads what a tuple of one element reads, without the list. -/
theorem Payload.fixedTuple_one_matches_tuple (h : s.Matches exact R s') :
    (fixedTuple (.cons s .nil)).Matches exact (fun a bs => ∃ b, bs = [b] ∧ R a.1 b)
      (tuple [s']) := by
  have hlist : (fixedTuple (.cons s' .nil)).map (Power.toList 1) = (tuple [s']).map id :=
    fixedTuple_map_toList [s']
  have hmatch : ((fixedTuple (.cons s .nil)).map id).Matches exact
      (fun a bs => ∃ b, bs = [b] ∧ R a.1 b)
      ((fixedTuple (.cons s' .nil)).map (Power.toList 1)) :=
    (fixedTuple_one_matches h).map fun a b hab => ⟨b.1, rfl, hab⟩
  rwa [map_id, hlist, map_id] at hmatch

theorem Schema.option_matches (h : s.Matches exact R s') :
    (option s).Matches exact (Option.Rel R) (option s') := by
  have hpayload : ((Payload.fixedTuple (.cons s .nil)).map Prod.fst).Matches exact R
      ((Payload.fixedTuple (.cons s' .nil)).map Prod.fst) :=
    (Payload.fixedTuple_one_matches h).map fun _ _ hab => hab
  rw [option_eq_map_enum, option_eq_map_enum]
  refine (optionEnum_matches hpayload).map fun _ _ hchoice => ?_
  cases hchoice with
  | unit => exact .none
  | payload hab => exact .some hab

end Options

end SborSchema
