/-
# Schemas that see only the data

A schema is blind to everything but the data if two trees with the same data
have the same outcome: they fail with one error, or both succeed. The values
may differ where a tree is kept whole, so whether they are the same is a
condition that outcomes carry along. A composite of blind parts is blind: its
walk reads kinds, names of fields and variants, and numbers of children, which
are data.

Key definitions: `SameOutcome`, `Schema.Blind`, `Payload.Blind`.
Key theorems: `SameOutcome.bind`, `Variant.resolve_sameData`, `Schema.enum_blind`,
`Payload.struct_blind`, `Payload.lenientStruct_blind`, `Schema.option_blind`.
-/
import SborSchema.Proofs.Outcome
import SborSchema.Proofs.Schema.Related
import SborSchema.Proofs.Tree.SameData

namespace SborSchema

variable {ε α β κ ν : Type} {same : Prop}

/-! ### Outcomes -/

/-- Two failures with one error, or two successes with values that are the same under the
condition. -/
inductive SameOutcome (same : Prop) : Except ε α → Except ε α → Prop
  | ok {a b : α} (h : same → a = b) : SameOutcome same (.ok a) (.ok b)
  | error (e : ε) : SameOutcome same (.error e) (.error e)

namespace SameOutcome

theorem refl (x : Except ε α) : SameOutcome same x x := by
  cases x with
  | ok a => exact .ok fun _ => rfl
  | error e => exact .error e

theorem ok_or_error {x y : Except ε α} (h : SameOutcome same x y) :
    (∃ a b, x = .ok a ∧ y = .ok b) ∨ ∃ e, x = .error e ∧ y = .error e := by
  cases h with
  | ok _ => exact .inl ⟨_, _, rfl, rfl⟩
  | error e => exact .inr ⟨e, rfl, rfl⟩

theorem eq {x y : Except ε α} (h : SameOutcome same x y) (hsame : same) : x = y := by
  cases h with
  | ok h => rw [h hsame]
  | error e => rfl

/-- Steps with the same outcome, after steps with the same outcome. -/
theorem bind {x y : Except ε α} {f g : α → Except ε β} (hxy : SameOutcome same x y)
    (hfg : ∀ a b, (same → a = b) → SameOutcome same (f a) (g b)) :
    SameOutcome same (x >>= f) (y >>= g) := by
  cases hxy with
  | ok h => exact hfg _ _ h
  | error e => exact .error e

theorem map {x y : Except ε α} (f : α → β) (hxy : SameOutcome same x y) :
    SameOutcome same (x.map f) (y.map f) := by
  cases hxy with
  | ok h => exact .ok fun hs => congrArg f (h hs)
  | error e => exact .error e

/-- The last two steps of a walk: the outcome of the head in front of those of the rest. -/
theorem cons {x y : Except ε α} {xs ys : Except ε (List α)} (head : SameOutcome same x y)
    (tail : SameOutcome same xs ys) :
    SameOutcome same (x >>= fun a => xs >>= fun as => .ok (a :: as))
      (y >>= fun a => ys >>= fun as => .ok (a :: as)) :=
  head.bind fun _ _ ha => tail.bind fun _ _ has => .ok fun h => by rw [ha h, has h]

end SameOutcome

/-- Trees with the same data have the same outcome behind the gate. -/
def Schema.Blind (same : Prop) (s : Schema α) : Prop :=
  ∀ t u, t.SameData u → ∀ p, SameOutcome same (s.parseGated t p) (s.parseGated u p)

/-- Fields with the same data have the same outcome. -/
def Payload.Blind (same : Prop) (q : Payload α) : Prop :=
  ∀ ts us, Tree.SameFields ts us → ∀ p, SameOutcome same (q.parseFields ts p) (q.parseFields us p)

/-- The gate looks at the kind only. -/
theorem Schema.Blind.of_parse {s : Schema α}
    (h : ∀ t u, t.SameData u → ∀ p, SameOutcome same (s.parse t p) (s.parse u p)) :
    s.Blind same := by
  intro t u htu p
  have hgate : s.gate t p = s.gate u p := by
    rw [gate, gate, wrongKind, wrongKind, htu.kind_eq]
  rw [parseGated, parseGated, hgate]
  exact (SameOutcome.refl _).bind fun _ _ _ => h t u htu p

theorem Schema.Blind.map (f : α → β) {s : Schema α} (h : s.Blind same) : (s.map f).Blind same := by
  intro t u htu p
  rw [map_parseGated, map_parseGated]
  exact (h t u htu p).map f

theorem Payload.Blind.map (f : α → β) {q : Payload α} (h : q.Blind same) :
    (q.map f).Blind same :=
  fun ts us hfields p => (h ts us hfields p).map f

/-! ### Arrays and maps -/

namespace Schema

theorem parseElements_blind {s : Schema α} (hs : s.Blind same) {ts us : List Tree}
    (h : List.Forall₂ Tree.SameData ts us) (p : Path) :
    ∀ i, SameOutcome same (parseElements s ts i p) (parseElements s us i p) := by
  induction h with
  | nil => exact fun _ => .refl _
  | cons head _ ih => exact fun i => (hs _ _ head _).cons (ih (i + 1))

theorem parseEntries_blind {k : Schema κ} {v : Schema ν} (hk : k.Blind same) (hv : v.Blind same)
    (p : Path) : ∀ {es es' : List (Tree × Tree)},
    List.Forall₂ Tree.SameData (es.map (·.1)) (es'.map (·.1)) →
    List.Forall₂ Tree.SameData (es.map (·.2)) (es'.map (·.2)) →
    ∀ i, SameOutcome same (parseEntries k v es i p) (parseEntries k v es' i p)
  | [], [], _, _, _ => .refl _
  | [], _ :: _, hkeys, _, _ => nomatch hkeys
  | _ :: _, [], hkeys, _, _ => nomatch hkeys
  | (t, u) :: es, (t', u') :: es', .cons hkey hkeys, .cons hvalue hvalues, i => by
    have tail := parseEntries_blind hk hv p hkeys hvalues (i + 1)
    refine (hk _ _ hkey _).bind fun a a' ha => (hv _ _ hvalue _).bind fun b b' hb => ?_
    exact tail.bind fun rest rest' hrest => .ok fun h => by rw [ha h, hb h, hrest h]

theorem array_blind {s : Schema α} (hs : s.Blind same) : (array s).Blind same := by
  refine .of_parse fun t u htu p => ?_
  cases htu with
  | array l l' k k' helements => exact parseElements_blind hs helements p 0
  | leaf | map | tuple | enum => exact .error _

theorem mapping_blind {k : Schema κ} {v : Schema ν} (hk : k.Blind same) (hv : v.Blind same) :
    (mapping k v).Blind same := by
  refine .of_parse fun t u htu p => ?_
  cases htu with
  | map l l' k k' k'' k''' hkeys hvalues => exact parseEntries_blind hk hv p hkeys hvalues 0
  | leaf | array | tuple | enum => exact .error _

end Schema

/-! ### Structs and tuples -/

namespace Payload

variable {ts us : List Tree} {p : Path}

theorem checkMissing_sameFields (fields : List (String × Schema α)) (h : Tree.SameFields ts us)
    (p : Path) : checkMissing fields ts p = checkMissing fields us p := by
  have hfound : ∀ name, (Tree.child? name ts).isNone = (Tree.child? name us).isNone := by
    intro name
    obtain ⟨t, u, -, ht, hu⟩ | ⟨ht, hu⟩ := h.child? name
    · rw [ht, hu]
      rfl
    · rw [ht, hu]
  simp only [checkMissing, missingNames, hfound]

theorem parseRequired_blind (h : Tree.SameFields ts us) (p : Path) :
    ∀ {fields : List (String × Schema α)}, (∀ f ∈ fields, f.2.Blind same) →
    SameOutcome same (parseRequired fields ts p) (parseRequired fields us p)
  | [], _ => .refl _
  | (name, s) :: fields, hfields => by
    obtain ⟨hs, hrest⟩ := List.forall_mem_cons.mp hfields
    have tail := parseRequired_blind h p hrest
    obtain ⟨t, u, htu, ht, hu⟩ | ⟨ht, hu⟩ := h.child? name
    · simp only [parseRequired, ht, hu]
      refine (hs t u htu _).bind fun a b hab => tail.bind fun as bs habs => .ok fun hsame => ?_
      rw [hab hsame, habs hsame]
    · simp only [parseRequired, ht, hu]
      exact .error _

theorem parsePresent_blind (h : Tree.SameFields ts us) (p : Path) :
    ∀ {fields : List (String × Schema α)}, (∀ f ∈ fields, f.2.Blind same) →
    SameOutcome same (parsePresent fields ts p) (parsePresent fields us p)
  | [], _ => .refl _
  | (name, s) :: fields, hfields => by
    obtain ⟨hs, hrest⟩ := List.forall_mem_cons.mp hfields
    have tail := parsePresent_blind h p hrest
    obtain ⟨t, u, htu, ht, hu⟩ | ⟨ht, hu⟩ := h.child? name
    · simp only [parsePresent, ht, hu]
      refine (hs t u htu _).bind fun a b hab => tail.bind fun as bs habs => .ok fun hsame => ?_
      rw [hab hsame, habs hsame]
    · simp only [parsePresent, ht, hu]
      exact tail.bind fun as bs habs => .ok fun hsame => by rw [habs hsame]

theorem struct_blind {fields : List (String × Schema α)} (h : ∀ f ∈ fields, f.2.Blind same) :
    (struct fields).Blind same := by
  intro ts us hsame p
  change SameOutcome same (checkMissing fields ts p >>= fun _ => parseRequired fields ts p)
    (checkMissing fields us p >>= fun _ => parseRequired fields us p)
  rw [checkMissing_sameFields fields hsame p]
  exact (SameOutcome.refl _).bind fun _ _ _ => parseRequired_blind hsame p h

theorem lenientStruct_blind {fields : List (String × Schema α)}
    (h : ∀ f ∈ fields, f.2.Blind same) : (lenientStruct fields).Blind same :=
  fun _ _ hsame p => parsePresent_blind hsame p h

theorem checkArity_sameFields (declared : Nat) (h : Tree.SameFields ts us) (p : Path) :
    checkArity declared ts p = checkArity declared us p := by
  rw [checkArity, checkArity, h.data.length_eq]

theorem parseEach_blind (h : List.Forall₂ Tree.SameData ts us) (p : Path) :
    ∀ {ss : List (Schema α)}, (∀ s ∈ ss, s.Blind same) → ∀ i,
    SameOutcome same (parseEach ss ts i p) (parseEach ss us i p) := by
  induction h with
  | nil =>
    intro ss _ i
    cases ss <;> exact .refl _
  | cons head _ ih =>
    intro ss hss i
    cases ss with
    | nil => exact .refl _
    | cons s ss =>
      obtain ⟨hs, hss⟩ := List.forall_mem_cons.mp hss
      exact (hs _ _ head _).cons (ih hss (i + 1))

theorem tuple_blind {ss : List (Schema α)} (h : ∀ s ∈ ss, s.Blind same) :
    (tuple ss).Blind same := by
  intro ts us hsame p
  change SameOutcome same (checkArity ss.length ts p >>= fun _ => parseEach ss ts 0 p)
    (checkArity ss.length us p >>= fun _ => parseEach ss us 0 p)
  rw [checkArity_sameFields ss.length hsame p]
  exact (SameOutcome.refl _).bind fun _ _ _ => parseEach_blind hsame.data p h 0

/-- The one place of a chosen option. -/
theorem fixedTuple_one_blind {s : Schema α} (hs : s.Blind same) :
    (fixedTuple (.cons s .nil)).Blind same := by
  intro ts us hsame p
  change SameOutcome same
    (checkArity 1 ts p >>= fun _ => Places.parseFrom 1 ts.length (.cons s .nil) ts 0 p)
    (checkArity 1 us p >>= fun _ => Places.parseFrom 1 us.length (.cons s .nil) us 0 p)
  rw [checkArity_sameFields 1 hsame p, hsame.data.length_eq]
  refine (SameOutcome.refl _).bind fun _ _ _ => ?_
  obtain ⟨-, hdata⟩ := hsame
  cases hdata with
  | nil => exact .error _
  | cons head _ =>
    exact (hs _ _ head _).bind fun a b hab => .ok fun h => by rw [hab h]

end Payload

/-! ### Enums and options -/

/-- Nodes with the same data are refused alike, or choose one variant over fields with the
same data. -/
theorem Variant.resolve_sameData (vs : List (Variant α)) {t u : Tree} (h : t.SameData u)
    (p : Path) :
    (∃ e, resolve vs t p = .error e ∧ resolve vs u p = .error e) ∨
      ∃ v ts us, v ∈ vs ∧ Tree.SameFields ts us ∧ resolve vs t p = .ok (v, ts) ∧
        resolve vs u p = .ok (v, us) := by
  cases h with
  | leaf | array | map | tuple => exact .inl ⟨_, rfl, rfl⟩
  | @enum l l' id id' name ts us hnames hdata =>
    have hempty : ts.isEmpty = us.isEmpty := by cases hdata <;> rfl
    simp only [resolve, hempty, hdata.length_eq]
    cases hfind : name.bind fun n => vs.find? (·.name == n) with
    | none => exact .inl ⟨_, rfl, rfl⟩
    | some v =>
      obtain ⟨n, -, hn⟩ := Option.bind_eq_some_iff.mp hfind
      simp only
      split
      · exact .inl ⟨_, rfl, rfl⟩
      · exact .inr ⟨v, ts, us, List.mem_of_find?_eq_some hn, ⟨hnames, hdata⟩, rfl, rfl⟩

namespace Schema

theorem enum_blind {vs : List (Variant α)}
    (h : ∀ v ∈ vs, ∀ q, v.payload = some q → q.Blind same) : (enum vs).Blind same := by
  refine .of_parse fun t u htu p => ?_
  simp only [enum]
  obtain ⟨e, he, he'⟩ | ⟨v, ts, us, hv, hfields, hr, hr'⟩ := Variant.resolve_sameData vs htu p
  · rw [he, he']
    exact .error e
  · simp only [hr, hr', ok_bind]
    cases hq : v.payload with
    | none => exact .refl _
    | some q =>
      refine (h v hv q hq ts us hfields _).bind fun a b hab => .ok fun hsame => ?_
      rw [hab hsame]

theorem option_blind {s : Schema α} (hs : s.Blind same) : (option s).Blind same := by
  rw [option_eq_map_enum]
  refine (enum_blind fun v hv q hq => ?_).map Choice.value
  rcases List.mem_pair.mp hv with rfl | rfl
  · cases hq
  · obtain rfl := Option.some.inj hq
    exact (Payload.fixedTuple_one_blind hs).map Prod.fst

end Schema
end SborSchema
