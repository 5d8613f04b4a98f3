/-
# What an accepted tree gives

The value of a composite is made of values of its parts, place by place. Here
this is read off the walk of each composite in both directions: a value that a
composite gives has parts that the schemas of the places give (`Schema.Yields`),
and from children that the schemas of the places read wherever they stand
(`Schema.Reads`), the composite reads their values.

Key definitions: `Schema.Yields`, `Payload.YieldsFields`, `Schema.Reads`.
Key theorems: `Schema.enum_yields`, `Payload.struct_yields`, `Payload.lenientStruct_yields`,
`Payload.tuple_yields`, `Schema.array_reads`, `Schema.mapping_reads`, `Schema.enum_reads`,
`Payload.struct_reads`, `Payload.lenientStruct_reads`, `Payload.tuple_reads`.
-/
import SborSchema.Proofs.Lists
import SborSchema.Proofs.Outcome
import SborSchema.Proofs.Schema.Related
import SborSchema.Proofs.Schema.Variant
import SborSchema.Schema.Repeated
import SborSchema.Schema.Scalar

namespace SborSchema

variable {α κ ν : Type}

/-- The schema gives the value for some tree at some path. -/
def Schema.Yields (s : Schema α) (a : α) : Prop := ∃ t p, s.parseGated t p = .ok a

/-- The payload gives the value for some list of fields at some path. -/
def Payload.YieldsFields (s : Payload α) (a : α) : Prop := ∃ fields p, s.parseFields fields p = .ok a

/-- The schema gives the value for the tree at every path. -/
def Schema.Reads (s : Schema α) (t : Tree) (a : α) : Prop := ∀ p, s.parseGated t p = .ok a

namespace Schema

/-- Behind the gate, a schema succeeds on nodes of the accepted kinds in its parse. -/
theorem parseGated_eq_ok {s : Schema α} {t : Tree} {p : Path} {a : α} :
    s.parseGated t p = .ok a ↔ s.kinds.contains t.kind = true ∧ s.parse t p = .ok a := by
  simp only [parseGated, gate]
  cases s.kinds.contains t.kind with
  | true => simp only [if_true, ok_bind, true_and]
  | false => simp only [Bool.false_eq_true, if_false, error_bind, reduceCtorEq, false_and]

/-- What is parsed within a limit is parsed without it. -/
theorem run_of_runWithin {s : Schema α} {limit : Nat} {t : Tree} {a : α}
    (h : s.runWithin limit t = .ok a) : s.run t = .ok a := by
  rw [runWithin] at h
  by_cases hdeep : limit < t.depth
  · rw [if_pos hdeep] at h
    cases h
  · rwa [if_neg hdeep] at h

/-- What is parsed after a function is applied is what the function makes of a parsed value. -/
theorem map_parse_eq_ok {β : Type} {f : α → β} {s : Schema α} {t : Tree} {p : Path} {b : β} :
    (s.map f).parse t p = .ok b ↔ ∃ a, s.parse t p = .ok a ∧ f a = b :=
  map_eq_ok

/-- Applying a function to what is parsed applies it to what is read. -/
theorem Reads.map {β : Type} (f : α → β) {s : Schema α} {t : Tree} {a : α} (h : s.Reads t a) :
    (s.map f).Reads t (f a) := by
  intro p
  obtain ⟨hc, hp⟩ := parseGated_eq_ok.mp (h p)
  exact parseGated_eq_ok.mpr ⟨hc, map_eq_ok.mpr ⟨a, hp, rfl⟩⟩

/-- A reader of leaves reads the content of an accepted kind. -/
theorem ofLeaf_reads {kinds : KindSet} {read : Leaf → Option (Except Cause α)} {content : Leaf}
    {a : α} (l : Labels) (hkind : kinds.contains content.kind = true)
    (hread : read content = some (.ok a)) : (ofLeaf kinds read).Reads (.leaf l content) a :=
  fun _ => parseGated_eq_ok.mpr ⟨hkind, by simp only [ofLeaf, readLeaf, hread]⟩

theorem textLeaf_reads {kind : Kind} {text? : Leaf → Option String} {content : Leaf} {text : String}
    (l : Labels) (hkind : content.kind = kind) (htext : text? content = some text) :
    (textLeaf kind text?).Reads (.leaf l content) text := by
  intro p
  refine parseGated_eq_ok.mpr ⟨?_, by simp only [textLeaf, readLeaf, htext, Option.map_some]⟩
  simp [textLeaf, Tree.kind, hkind]

/-! ### Arrays and maps -/

theorem parseElements_yields {s : Schema α} {p : Path} : ∀ {ts : List Tree} {i : Nat}
    {values : List α}, parseElements s ts i p = .ok values → ∀ a ∈ values, s.Yields a
  | [], _, _, h => by
    obtain rfl := Except.ok.inj h
    exact fun _ ha => nomatch ha
  | t :: ts, i, _, h => by
    obtain ⟨a, ha, h⟩ := bind_eq_ok.mp h
    obtain ⟨values, hrest, h⟩ := bind_eq_ok.mp h
    obtain rfl := Except.ok.inj h
    exact List.forall_mem_cons.mpr ⟨⟨t, _, ha⟩, parseElements_yields hrest⟩

theorem parseEntries_yields {key : Schema κ} {value : Schema ν} {p : Path} :
    ∀ {entries : List (Tree × Tree)} {i : Nat} {values : List (κ × ν)},
    parseEntries key value entries i p = .ok values →
    ∀ e ∈ values, key.Yields e.1 ∧ value.Yields e.2
  | [], _, _, h => by
    obtain rfl := Except.ok.inj h
    exact fun _ he => nomatch he
  | (k, v) :: entries, i, _, h => by
    obtain ⟨a, ha, h⟩ := bind_eq_ok.mp h
    obtain ⟨b, hb, h⟩ := bind_eq_ok.mp h
    obtain ⟨values, hrest, h⟩ := bind_eq_ok.mp h
    obtain rfl := Except.ok.inj h
    exact List.forall_mem_cons.mpr ⟨⟨⟨k, _, ha⟩, ⟨v, _, hb⟩⟩, parseEntries_yields hrest⟩

theorem array_yields {s : Schema α} {t : Tree} {p : Path} {values : List α}
    (h : (array s).parse t p = .ok values) : ∀ a ∈ values, s.Yields a := by
  cases t with
  | array l k elements => exact parseElements_yields h
  | leaf | map | tuple | enum => cases h

theorem mapping_yields {key : Schema κ} {value : Schema ν} {t : Tree} {p : Path}
    {values : List (κ × ν)} (h : (mapping key value).parse t p = .ok values) :
    ∀ e ∈ values, key.Yields e.1 ∧ value.Yields e.2 := by
  cases t with
  | map l k k' entries => exact parseEntries_yields h
  | leaf | array | tuple | enum => cases h

theorem parseElements_reads {s : Schema α} {ts : List Tree} {values : List α}
    (h : List.Forall₂ s.Reads ts values) : ∀ (i : Nat) (p : Path),
    parseElements s ts i p = .ok values := by
  induction h with
  | nil => exact fun _ _ => rfl
  | cons head _ ih =>
    intro i p
    simp only [parseElements, head (p.index i), ih (i + 1) p, ok_bind]
    rfl

theorem parseEntries_reads {key : Schema κ} {value : Schema ν} {entries : List (Tree × Tree)}
    {values : List (κ × ν)}
    (h : List.Forall₂ (fun e g => key.Reads e.1 g.1 ∧ value.Reads e.2 g.2) entries values) :
    ∀ (i : Nat) (p : Path), parseEntries key value entries i p = .ok values := by
  induction h with
  | nil => exact fun _ _ => rfl
  | cons head _ ih =>
    intro i p
    simp only [parseEntries, head.1 (p.index i), head.2 (p.index i), ih (i + 1) p, ok_bind]
    rfl

theorem array_reads {s : Schema α} {ts : List Tree} {values : List α} (l : Labels) (k : Kind)
    (h : List.Forall₂ s.Reads ts values) : (array s).Reads (.array l k ts) values :=
  fun p => parseGated_eq_ok.mpr ⟨by simp [array, Tree.kind], parseElements_reads h 0 p⟩

theorem mapping_reads {key : Schema κ} {value : Schema ν} {entries : List (Tree × Tree)}
    {values : List (κ × ν)} (l : Labels) (k k' : Kind)
    (h : List.Forall₂ (fun e g => key.Reads e.1 g.1 ∧ value.Reads e.2 g.2) entries values) :
    (mapping key value).Reads (.map l k k' entries) values :=
  fun p => parseGated_eq_ok.mpr ⟨by simp [mapping, Tree.kind], parseEntries_reads h 0 p⟩

/-! ### Enums and options -/

/-- A choice names a declared variant, and has a value that the payload of the first one of
this name gives unless it is a unit. -/
theorem enum_yields_first {vs : List (Variant α)} {t : Tree} {p : Path} {c : Choice α}
    (h : (enum vs).parse t p = .ok c) :
    ∃ v, vs.find? (·.name == c.variant) = some v ∧ c.variant = v.name ∧
      ((v.payload = none ∧ c.value = none) ∨
        ∃ payload a, v.payload = some payload ∧ c.value = some a ∧ payload.YieldsFields a) := by
  obtain ⟨⟨v, fields⟩, hr, h⟩ := bind_eq_ok.mp h
  have hfind := Variant.find?_of_resolve hr
  refine ⟨v, ?_⟩
  cases hp : v.payload with
  | none =>
    simp only [hp] at h
    obtain rfl := Except.ok.inj h
    exact ⟨hfind, rfl, .inl ⟨rfl, rfl⟩⟩
  | some payload =>
    simp only [hp] at h
    obtain ⟨a, ha, h⟩ := bind_eq_ok.mp h
    obtain rfl := Except.ok.inj h
    exact ⟨hfind, rfl, .inr ⟨payload, a, rfl, rfl, fields, _, ha⟩⟩

/-- A choice names a declared variant, and has a value that the payload of the variant
gives unless it is a unit. -/
theorem enum_yields {vs : List (Variant α)} {t : Tree} {p : Path} {c : Choice α}
    (h : (enum vs).parse t p = .ok c) :
    ∃ v ∈ vs, c.variant = v.name ∧ ((v.payload = none ∧ c.value = none) ∨
      ∃ payload a, v.payload = some payload ∧ c.value = some a ∧ payload.YieldsFields a) := by
  obtain ⟨v, hfind, hv⟩ := enum_yields_first h
  exact ⟨v, List.mem_of_find?_eq_some hfind, hv⟩

/-- A node of the name of a unit reads as that choice. -/
theorem enum_reads_unit {vs : List (Variant α)} {n : String} (l : Labels) (id : String)
    (hfind : vs.find? (·.name == n) = some ⟨n, none⟩) :
    (enum vs).Reads (.enum l id (some n) []) ⟨n, none⟩ := by
  intro p
  have hr : Variant.resolve vs (.enum l id (some n) []) p = .ok (⟨n, none⟩, []) :=
    Variant.resolve_of_find? hfind fun _ => rfl
  refine parseGated_eq_ok.mpr ⟨by simp [enum, Tree.kind], ?_⟩
  simp only [enum, hr, ok_bind]
  rfl

/-- A node of the name of another variant reads as that choice, with what the payload
reads the fields as. -/
theorem enum_reads {vs : List (Variant α)} {n : String} {payload : Payload α}
    {fields : List Tree} {a : α} (l : Labels) (id : String)
    (hfind : vs.find? (·.name == n) = some ⟨n, some payload⟩)
    (hfields : ∀ p, payload.parseFields fields p = .ok a) :
    (enum vs).Reads (.enum l id (some n) fields) ⟨n, some a⟩ := by
  intro p
  have hr : Variant.resolve vs (.enum l id (some n) fields) p = .ok (⟨n, some payload⟩, fields) :=
    Variant.resolve_of_find? hfind nofun
  refine parseGated_eq_ok.mpr ⟨by simp [enum, Tree.kind], ?_⟩
  simp only [enum, hr, ok_bind, hfields]
  rfl

end Schema

/-! ### Structs and tuples -/

namespace Payload

variable {fields : List (String × Schema α)} {children : List Tree} {p : Path}

theorem parseRequired_yields : ∀ {fields : List (String × Schema α)} {values : List (String × α)},
    parseRequired fields children p = .ok values →
    List.Forall₂ (fun f g => g.1 = f.1 ∧ f.2.Yields g.2) fields values
  | [], _, h => by
    obtain rfl := Except.ok.inj h
    exact .nil
  | (name, s) :: fields, _, h => by
    simp only [parseRequired] at h
    cases hc : Tree.child? name children with
    | none => simp [hc] at h
    | some t =>
      simp only [hc] at h
      obtain ⟨a, ha, h⟩ := bind_eq_ok.mp h
      obtain ⟨values, hrest, h⟩ := bind_eq_ok.mp h
      obtain rfl := Except.ok.inj h
      exact .cons ⟨rfl, t, _, ha⟩ (parseRequired_yields hrest)

theorem parsePresent_yields : ∀ {fields : List (String × Schema α)}
    {values : List (String × Option α)}, parsePresent fields children p = .ok values →
    List.Forall₂ (fun f g => g.1 = f.1 ∧ ∀ a, g.2 = some a → f.2.Yields a) fields values
  | [], _, h => by
    obtain rfl := Except.ok.inj h
    exact .nil
  | (name, s) :: fields, _, h => by
    simp only [parsePresent] at h
    cases hc : Tree.child? name children with
    | none =>
      simp only [hc] at h
      obtain ⟨values, hrest, h⟩ := bind_eq_ok.mp h
      obtain rfl := Except.ok.inj h
      exact .cons ⟨rfl, nofun⟩ (parsePresent_yields hrest)
    | some t =>
      simp only [hc] at h
      obtain ⟨a, ha, h⟩ := bind_eq_ok.mp h
      obtain ⟨values, hrest, h⟩ := bind_eq_ok.mp h
      obtain rfl := Except.ok.inj h
      refine .cons ⟨rfl, ?_⟩ (parsePresent_yields hrest)
      rintro _ ⟨⟩
      exact ⟨t, _, ha⟩

/-- A struct gives a value of each field under its name, in order. -/
theorem struct_yields {values : List (String × α)}
    (h : (struct fields).parseFields children p = .ok values) :
    List.Forall₂ (fun f g => g.1 = f.1 ∧ f.2.Yields g.2) fields values := by
  obtain ⟨_, -, h⟩ := bind_eq_ok.mp h
  exact parseRequired_yields h

/-- A lenient struct gives a value of each field under its name or none, in order. -/
theorem lenientStruct_yields {values : List (String × Option α)}
    (h : (lenientStruct fields).parseFields children p = .ok values) :
    List.Forall₂ (fun f g => g.1 = f.1 ∧ ∀ a, g.2 = some a → f.2.Yields a) fields values :=
  parsePresent_yields h

theorem parseEach_yields : ∀ {ss : List (Schema α)} {ts : List Tree} {i : Nat} {values : List α},
    ts.length = ss.length → parseEach ss ts i p = .ok values →
    List.Forall₂ Schema.Yields ss values
  | [], _, _, _, _, h => by
    obtain rfl := Except.ok.inj h
    exact .nil
  | _ :: _, [], _, _, hlen, _ => nomatch hlen
  | s :: ss, t :: ts, i, _, hlen, h => by
    obtain ⟨a, ha, h⟩ := bind_eq_ok.mp h
    obtain ⟨values, hrest, h⟩ := bind_eq_ok.mp h
    obtain rfl := Except.ok.inj h
    exact .cons ⟨t, _, ha⟩ (parseEach_yields (Nat.succ.inj hlen) hrest)

/-- A tuple gives a value of each place, in order. -/
theorem tuple_yields {ss : List (Schema α)} {values : List α}
    (h : (tuple ss).parseFields children p = .ok values) :
    List.Forall₂ Schema.Yields ss values := by
  obtain ⟨_, harity, h⟩ := bind_eq_ok.mp h
  refine parseEach_yields ?_ h
  simp only [checkArity] at harity
  split at harity
  · assumption
  · cases harity

theorem parsePresent_reads {values : List (String × Option α)}
    (h : List.Forall₂ (fun f g => g.1 = f.1 ∧ Option.Rel f.2.Reads (Tree.child? f.1 children) g.2)
      fields values) (p : Path) : parsePresent fields children p = .ok values := by
  induction h with
  | nil => rfl
  | @cons f g fields values head _ ih =>
    obtain ⟨name, s⟩ := f
    obtain ⟨_, a⟩ := g
    obtain ⟨rfl, hread⟩ := head
    simp only [parsePresent]
    generalize Tree.child? _ children = found at hread
    cases hread with
    | none =>
      simp only [ih, ok_bind]
      rfl
    | some hread =>
      simp only [hread _, ih, ok_bind]
      rfl

theorem parseRequired_reads {values : List (String × α)}
    (h : List.Forall₂ (fun f g => g.1 = f.1 ∧
      Option.Rel f.2.Reads (Tree.child? f.1 children) (some g.2)) fields values) (p : Path) :
    parseRequired fields children p = .ok values := by
  induction h with
  | nil => rfl
  | @cons f g fields values head _ ih =>
    obtain ⟨name, s⟩ := f
    obtain ⟨_, a⟩ := g
    obtain ⟨rfl, hread⟩ := head
    simp only [parseRequired]
    generalize Tree.child? _ children = found at hread
    cases hread with
    | some hread =>
      simp only [hread _, ih, ok_bind]
      rfl

/-- A struct reads children among which each declared name is found, first with a child
that the schema of the field reads. -/
theorem struct_reads {values : List (String × α)}
    (h : List.Forall₂ (fun f g => g.1 = f.1 ∧
      Option.Rel f.2.Reads (Tree.child? f.1 children) (some g.2)) fields values) (p : Path) :
    (struct fields).parseFields children p = .ok values := by
  have hfound : ∀ f ∈ fields, (Tree.child? f.1 children).isNone = false := by
    refine forall_mem_of_forall₂ (fun f g hfg => ?_) h
    obtain ⟨-, hread⟩ := hfg
    generalize Tree.child? f.1 children = found at hread ⊢
    cases hread
    rfl
  have hmissing : missingNames fields children = [] := by
    refine List.filter_eq_nil_iff.mpr fun name hname => ?_
    obtain ⟨f, hf, rfl⟩ := List.mem_map.mp hname
    simp only [hfound f hf, Bool.false_eq_true, not_false_eq_true]
  change (checkMissing fields children p >>= fun _ => parseRequired fields children p) = _
  rw [checkMissing, hmissing]
  exact parseRequired_reads h p

/-- A lenient struct reads children among which each declared name is either not found, or
first found with a child that the schema of the field reads. -/
theorem lenientStruct_reads {values : List (String × Option α)}
    (h : List.Forall₂ (fun f g => g.1 = f.1 ∧ Option.Rel f.2.Reads (Tree.child? f.1 children) g.2)
      fields values) (p : Path) : (lenientStruct fields).parseFields children p = .ok values :=
  parsePresent_reads h p

theorem parseEach_reads {ss : List (Schema α)} {xs : List (Tree × α)}
    (h : List.Forall₂ (fun s x => s.Reads x.1 x.2) ss xs) : ∀ (i : Nat) (p : Path),
    parseEach ss (xs.map Prod.fst) i p = .ok (xs.map Prod.snd) := by
  induction h with
  | nil => exact fun _ _ => rfl
  | cons head _ ih =>
    intro i p
    simp only [List.map_cons, parseEach, head (p.index i), ih (i + 1) p, ok_bind]
    rfl

/-- A tuple reads children that the schemas of their places read. -/
theorem tuple_reads {ss : List (Schema α)} {xs : List (Tree × α)}
    (h : List.Forall₂ (fun s x => s.Reads x.1 x.2) ss xs) (p : Path) :
    (tuple ss).parseFields (xs.map Prod.fst) p = .ok (xs.map Prod.snd) := by
  have harity : checkArity ss.length (xs.map Prod.fst) p = .ok () :=
    if_pos (by rw [List.length_map, h.length_eq])
  change (checkArity ss.length (xs.map Prod.fst) p >>= fun _ =>
    parseEach ss (xs.map Prod.fst) 0 p) = _
  rw [harity, ok_bind, parseEach_reads h]

end Payload

/-! ### Options -/

namespace Schema

/-- A value in an option is a value of what the option is of. -/
theorem option_yields {s : Schema α} {t : Tree} {p : Path} {a : α}
    (h : (option s).parse t p = .ok (some a)) : s.Yields a := by
  rw [option_eq_map_enum] at h
  obtain ⟨⟨name, _⟩, hc, rfl⟩ := map_eq_ok.mp h
  obtain ⟨v, hv, -, ⟨-, hnone⟩ | ⟨payload, b, hpayload, hb, fields, q, hfields⟩⟩ := enum_yields hc
  · cases hnone
  obtain rfl : a = b := Option.some.inj hb
  rcases List.mem_pair.mp hv with rfl | rfl
  · cases hpayload
  obtain rfl := Option.some.inj hpayload
  obtain ⟨⟨b, _⟩, hplaces, rfl⟩ := map_eq_ok.mp hfields
  obtain ⟨_, -, hplaces⟩ := bind_eq_ok.mp hplaces
  cases fields with
  | nil => cases hplaces
  | cons t rest =>
    obtain ⟨b, hread, hplaces⟩ := bind_eq_ok.mp hplaces
    obtain ⟨_, -, hplaces⟩ := bind_eq_ok.mp hplaces
    cases hplaces
    exact ⟨t, _, hread⟩

theorem option_reads_none (s : Schema α) (l : Labels) (id : String) :
    (option s).Reads (.enum l id (some "None") []) none := by
  rw [option_eq_map_enum]
  exact (enum_reads_unit l id rfl).map Choice.value

theorem option_reads_some {s : Schema α} {t : Tree} {a : α} (l : Labels) (id : String)
    (h : s.Reads t a) : (option s).Reads (.enum l id (some "Some") [t]) (some a) := by
  rw [option_eq_map_enum]
  refine (enum_reads l id rfl fun p => ?_).map Choice.value
  refine map_eq_ok.mpr ⟨(a, ()), ?_, rfl⟩
  change (s.parseGated t (p.index 0) >>= fun a => _) = _
  rw [h (p.index 0)]
  rfl

end Schema
end SborSchema
