/-
# Structs look at the first child of each name

A struct searches the list of children again for every declared name: to see
what is missing, to check, and to parse. All these walks come to the same end on
two lists of children with the same first child under every declared name, so
nothing tells the two lists apart (`same_of_sameFirst`): not the struct on the
lists, nor on tuple nodes, nor as the payload of a variant, and no adapter over
the struct either.

Key definitions: `Payload.ReadsByName`, `Payload.SameFor`.
Key theorems: `NamedPlaces.checkMissing_eq`, `Payload.walks_congr`, `NamedPlaces.walks_congr`,
`Payload.ReadsByName.fields_congr`, `same_of_sameFirst`.
-/
import SborSchema.Proofs.Schema.Arity
import SborSchema.Proofs.Schema.Payload
import SborSchema.Proofs.Tree.Child

namespace SborSchema

variable {α β : Type} {ts us : List Tree}

/-! ### Missing names -/

/-- Children among which declared names are missing are refused for all of these names. -/
theorem NamedPlaces.checkMissing_eq (places : NamedPlaces α β) (children : List Tree) (p : Path) :
    places.checkMissing children p =
      if (Tree.missing places.names children).isEmpty then .ok ()
      else .error ⟨.missingFields (Tree.missing places.names children), p⟩ := by
  rw [checkMissing, Tree.filter_isNone_child?]
  cases Tree.missing places.names children with
  | nil => rfl
  | cons name names => rfl

theorem Payload.checkMissing_eq (fields : List (String × Schema α)) (children : List Tree)
    (p : Path) :
    checkMissing fields children p =
      if (Tree.missing (fields.map (·.1)) children).isEmpty then .ok ()
      else .error ⟨.missingFields (Tree.missing (fields.map (·.1)) children), p⟩ := by
  rw [← NamedPlaces.checkMissing_ofList, NamedPlaces.checkMissing_eq, NamedPlaces.names_ofList]

/-! ### The walks of a struct -/

theorem Payload.checkMissing_of_sameFirst {fields : List (String × Schema α)}
    (h : Tree.SameFirst (fields.map (·.1)) ts us) (p : Path) :
    checkMissing fields ts p = checkMissing fields us p := by
  rw [checkMissing_eq, checkMissing_eq, Tree.missing_of_sameFirst h]

theorem NamedPlaces.checkMissing_of_sameFirst {places : NamedPlaces α β}
    (h : Tree.SameFirst places.names ts us) (p : Path) :
    places.checkMissing ts p = places.checkMissing us p := by
  rw [checkMissing_eq, checkMissing_eq, Tree.missing_of_sameFirst h]

/-- The walks through the declared fields ask for their first children, one after the other. -/
theorem Payload.walks_congr {p : Path} : ∀ {fields : List (String × Schema α)},
    Tree.SameFirst (fields.map (·.1)) ts us →
    validatePresent fields ts p = validatePresent fields us p ∧
      parseRequired fields ts p = parseRequired fields us p ∧
      parsePresent fields ts p = parsePresent fields us p
  | [], _ => ⟨rfl, rfl, rfl⟩
  | (name, s) :: fields, h => by
    obtain ⟨hhead, htail⟩ := List.forall_mem_cons.mp h
    obtain ⟨hvalidate, hrequired, hpresent⟩ := walks_congr (p := p) htail
    simp only at hhead
    simp only [validatePresent, parseRequired, parsePresent, hhead, hvalidate, hrequired, hpresent,
      and_self]

/-- The same of named places. -/
theorem NamedPlaces.walks_congr {p : Path} : ∀ {α β : Type} {places : NamedPlaces α β},
    Tree.SameFirst places.names ts us →
    places.validatePresent ts p = places.validatePresent us p ∧
      places.parseRequired ts p = places.parseRequired us p ∧
      places.parsePresent ts p = places.parsePresent us p
  | _, _, .nil, _ => ⟨rfl, rfl, rfl⟩
  | _, _, .cons name s places, h => by
    obtain ⟨hhead, htail⟩ := List.forall_mem_cons.mp h
    obtain ⟨hvalidate, hrequired, hpresent⟩ := walks_congr (p := p) htail
    simp only [validatePresent, parseRequired, parsePresent, hhead, hvalidate, hrequired, hpresent,
      and_self]

/-! ### Structs and adapters over them -/

/-- Structs of the declared names, strict and lenient, and adapters over them. -/
inductive Payload.ReadsByName : List String → ∀ {α : Type}, Payload α → Prop
  | struct {α : Type} (fields : List (String × Schema α)) :
      ReadsByName (fields.map (·.1)) (Payload.struct fields)
  | lenientStruct {α : Type} (fields : List (String × Schema α)) :
      ReadsByName (fields.map (·.1)) (Payload.lenientStruct fields)
  | fixedStruct {α β : Type} (places : NamedPlaces α β) :
      ReadsByName places.names (Payload.fixedStruct places)
  | fixedLenientStruct {α β : Type} (places : NamedPlaces α β) :
      ReadsByName places.names (Payload.fixedLenientStruct places)
  | map {declared : List String} {α β : Type} (f : α → β) {q : Payload α}
      (h : ReadsByName declared q) : ReadsByName declared (q.map f)
  | tryMap {declared : List String} {α β : Type} (f : α → Except String β) {q : Payload α}
      (h : ReadsByName declared q) : ReadsByName declared (q.tryMap f)

namespace Payload.ReadsByName

variable {declared : List String} {q : Payload α}

theorem readsTuples (hq : q.ReadsByName declared) : q.ReadsTuples := by
  induction hq with
  | struct | lenientStruct | fixedStruct | fixedLenientStruct => exact readsTuples_ofFields _ _
  | map f _ ih => exact ih.map f
  | tryMap f _ ih => exact ih.tryMap f

/-- On lists with the same first children, a struct checks and parses alike. -/
theorem fields_congr (hq : q.ReadsByName declared) (h : Tree.SameFirst declared ts us) (p : Path) :
    q.validateFields ts p = q.validateFields us p ∧ q.parseFields ts p = q.parseFields us p := by
  induction hq with
  | struct fields =>
    obtain ⟨hvalidate, hrequired, -⟩ := Payload.walks_congr (p := p) h
    have hmissing := Payload.checkMissing_of_sameFirst h p
    simp only [Payload.struct, ofFields, hmissing, hvalidate, hrequired, and_self]
  | lenientStruct fields =>
    obtain ⟨hvalidate, -, hpresent⟩ := Payload.walks_congr (p := p) h
    exact ⟨hvalidate, hpresent⟩
  | fixedStruct places =>
    obtain ⟨hvalidate, hrequired, -⟩ := NamedPlaces.walks_congr (p := p) h
    have hmissing := NamedPlaces.checkMissing_of_sameFirst h p
    simp only [Payload.fixedStruct, ofFields, hmissing, hvalidate, hrequired, and_self]
  | fixedLenientStruct places =>
    obtain ⟨hvalidate, -, hpresent⟩ := NamedPlaces.walks_congr (p := p) h
    exact ⟨hvalidate, hpresent⟩
  | map f _ ih =>
    obtain ⟨hvalidate, hparse⟩ := ih h
    simp only [Payload.map, hvalidate, hparse, and_self]
  | tryMap f _ ih =>
    obtain ⟨-, hparse⟩ := ih h
    simp only [Payload.tryMap, hparse, and_self]

end Payload.ReadsByName

/-- Nothing tells two lists of fields apart for the payload: not on their own, not in tuple
nodes, and not in enum nodes whose first variant of the name has the payload. -/
structure Payload.SameFor (q : Payload α) (ts us : List Tree) : Prop where
  validateFields (p : Path) : q.validateFields ts p = q.validateFields us p
  parseFields (p : Path) : q.parseFields ts p = q.parseFields us p
  validate (l l' : Labels) (p : Path) : q.validate (.tuple l ts) p = q.validate (.tuple l' us) p
  parse (l l' : Labels) (p : Path) : q.parse (.tuple l ts) p = q.parse (.tuple l' us) p
  validateEnum {vs : List (Variant α)} {v : Variant α} {name : String}
    (hfind : vs.find? (·.name == name) = some v) (hpayload : v.payload = some q) (l l' : Labels)
    (id id' : String) (p : Path) : (Schema.enum vs).validate (.enum l id (some name) ts) p =
      (Schema.enum vs).validate (.enum l' id' (some name) us) p
  parseEnum {vs : List (Variant α)} {v : Variant α} {name : String}
    (hfind : vs.find? (·.name == name) = some v) (hpayload : v.payload = some q) (l l' : Labels)
    (id id' : String) (p : Path) : (Schema.enum vs).parse (.enum l id (some name) ts) p =
      (Schema.enum vs).parse (.enum l' id' (some name) us) p

theorem Payload.ReadsByName.sameFor {declared : List String} {q : Payload α}
    (hq : q.ReadsByName declared) (h : Tree.SameFirst declared ts us) : q.SameFor ts us where
  validateFields p := (hq.fields_congr h p).1
  parseFields p := (hq.fields_congr h p).2
  validate l l' p := by
    rw [hq.readsTuples.validate, hq.readsTuples.validate, (hq.fields_congr h p).1]
  parse l l' p := by
    rw [hq.readsTuples.parse, hq.readsTuples.parse, (hq.fields_congr h p).2]
  validateEnum {_ _ name} hfind hpayload l l' id id' p := by
    rw [Schema.validate_enum_of_find? hfind hpayload, Schema.validate_enum_of_find? hfind hpayload,
      (hq.fields_congr h (p.field name)).1]
  parseEnum {_ _ name} hfind hpayload l l' id id' p := by
    rw [Schema.parse_enum_of_find? hfind hpayload, Schema.parse_enum_of_find? hfind hpayload,
      (hq.fields_congr h (p.field name)).2]

/-- **A struct sees the first child of each declared name only.** On two lists of children with
the same first child, or none, under every declared name, a strict or lenient struct gives the
same verdict and the same outcome, value or error, by itself and as the payload of a variant. So
it does if one list comes from the other one when children of different names change places,
children without a declared name come in or go, and so do children that repeat the name of an
earlier one. -/
theorem same_of_sameFirst {declared : List String} {q : Payload α} (hq : q.ReadsByName declared) :
    (Tree.SameFirst declared ts us → q.SameFor ts us) ∧
      (Relation.EqvGen (Tree.Edit declared) ts us → q.SameFor ts us) :=
  ⟨hq.sameFor, fun h => hq.sameFor (Tree.sameFirst_of_edits h)⟩

/-- Two children change places, one without a name comes in front and another one of the name
`a` behind: the struct reads the same values, from the nodes and as the payload of a variant. -/
theorem same_of_sameFirst_edits :
    let a : Tree := .leaf ⟨none, some "a"⟩ (.bool true)
    let b : Tree := .leaf ⟨none, some "b"⟩ (.bool false)
    let us : List Tree := [.leaf {} (.string "x"), b, a, .leaf ⟨none, some "a"⟩ (.string "y")]
    let q : Payload (List Bool) :=
      (Payload.struct [("a", Schema.bool), ("b", Schema.bool)]).map (List.map (·.2))
    q.ReadsByName ["a", "b"] ∧ Relation.EqvGen (Tree.Edit ["a", "b"]) [a, b] us ∧
      Tree.SameFirst ["a", "b"] [a, b] us ∧ q.parse (.tuple {} us) .root = .ok [true, false] ∧
      (Schema.enum [.new "V" q]).parse (.enum {} "0" (some "V") us) .root =
        .ok ⟨"V", some [true, false]⟩ := by
  intro a b us q
  have hq : q.ReadsByName ["a", "b"] := .map _ (.struct [("a", Schema.bool), ("b", Schema.bool)])
  have hswap : Tree.Edit ["a", "b"] [a, b] [b, a] := .swap [] [] (by decide)
  have hinsert : Tree.Edit ["a", "b"] [b, a] [.leaf {} (.string "x"), b, a] :=
    .insert [] [b, a] (by decide)
  have hduplicate : Tree.Edit ["a", "b"] [.leaf {} (.string "x"), b, a] us :=
    .duplicate [.leaf {} (.string "x"), b, a] []
      (List.mem_cons_of_mem _ (List.mem_cons_of_mem _ List.mem_cons_self)) rfl
  have hedits : Relation.EqvGen (Tree.Edit ["a", "b"]) [a, b] us :=
    .trans _ _ _ (.rel _ _ hswap) (.trans _ _ _ (.rel _ _ hinsert) (.rel _ _ hduplicate))
  have hfirst : Tree.SameFirst ["a", "b"] [a, b] us := Tree.sameFirst_of_edits hedits
  have hnode := ((same_of_sameFirst hq).2 hedits).parse {} {} .root
  have hfind : [Variant.new "V" q].find? (·.name == "V") = some (.new "V" q) := rfl
  have hvariant := ((same_of_sameFirst hq).1 hfirst).parseEnum hfind rfl {} {} "0" "0" .root
  have hnode' : q.parse (.tuple {} [a, b]) .root = .ok [true, false] := by
    simp only [q, a, b]
    rfl
  have hvariant' : (Schema.enum [.new "V" q]).parse (.enum {} "0" (some "V") [a, b]) .root =
      .ok ⟨"V", some [true, false]⟩ := by
    simp only [q, a, b]
    rfl
  exact ⟨hq, hedits, hfirst, hnode.symm.trans hnode', hvariant.symm.trans hvariant'⟩

end SborSchema
