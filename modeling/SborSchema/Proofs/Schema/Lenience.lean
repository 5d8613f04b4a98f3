/-
# A strict struct and the lenient one of the same fields

A strict struct looks for missing fields before it parses any of them, and then
once more at each field. Once no declared name is missing, the second look finds
nothing, and the walk does what the walk of the lenient struct does. So a strict
struct is the lenient one on children among which all declared names are found,
and refuses all others in one error that names what is missing, however the
children that are there would fare (`struct_strictForm`). The lenient struct has
no value for a field exactly when no child carries its name.

Key definitions: `NamedPlaces.present`, `NamedPlaces.given`, `Payload.StrictForm`.
Key theorems: `Payload.parsePresent_eq_map`, `NamedPlaces.parsePresent_eq_map`,
`Payload.strictForm_of_walks`, `struct_strictForm`.
-/
import SborSchema.Proofs.Outcome
import SborSchema.Proofs.Schema.FirstChild

namespace SborSchema

variable {α β : Type} {names : List String} {children : List Tree} {p : Path}

/-! ### The two walks -/

/-- Where all declared names are found, the walk of a lenient struct does what that of a
strict one does, and gives every value. -/
theorem Payload.parsePresent_eq_map : ∀ {fields : List (String × Schema α)},
    (∀ name ∈ fields.map (·.1), Tree.child? name children ≠ none) →
    parsePresent fields children p =
      (parseRequired fields children p).map (List.map fun f => (f.1, some f.2))
  | [], _ => rfl
  | (name, s) :: fields, hfound => by
    obtain ⟨hhead, htail⟩ := List.forall_mem_cons.mp hfound
    obtain ⟨t, ht⟩ := Option.ne_none_iff_exists'.mp hhead
    have hrest := parsePresent_eq_map htail
    simp only at ht
    simp only [parsePresent, parseRequired, ht, hrest, map_bind, bind_map]
    rfl

/-- A lenient struct has a value for the fields whose names are carried. -/
theorem Payload.given_of_parsePresent : ∀ {fields : List (String × Schema α)}
    {values : List (String × Option α)}, parsePresent fields children p = .ok values →
    (values.map fun f => f.2.isSome) =
      (fields.map (·.1)).map fun name => Tree.carries name children
  | [], _, h => by
    obtain rfl := Except.ok.inj h
    rfl
  | (name, s) :: fields, _, h => by
    simp only [parsePresent] at h
    rw [List.map_cons, List.map_cons, ← Tree.isSome_child?]
    cases hc : Tree.child? name children with
    | none =>
      rw [hc] at h
      obtain ⟨values, hvalues, h⟩ := bind_eq_ok.mp h
      obtain rfl := Except.ok.inj h
      rw [List.map_cons, given_of_parsePresent hvalues]
      rfl
    | some t =>
      rw [hc] at h
      obtain ⟨a, -, h⟩ := bind_eq_ok.mp h
      obtain ⟨values, hvalues, h⟩ := bind_eq_ok.mp h
      obtain rfl := Except.ok.inj h
      rw [List.map_cons, given_of_parsePresent hvalues]
      rfl

namespace NamedPlaces

/-- Values that are all there, as values that may be absent. -/
def present {α β : Type} : NamedPlaces α β → α → β
  | nil, _ => ()
  | cons _ _ tail, (a, rest) => (some a, tail.present rest)

/-- Which of the places have a value. -/
def given {α β : Type} : NamedPlaces α β → β → List Bool
  | nil, _ => []
  | cons _ _ tail, (a, rest) => a.isSome :: tail.given rest

/-- The same of named places. -/
theorem parsePresent_eq_map : ∀ {α β : Type} {places : NamedPlaces α β},
    (∀ name ∈ places.names, Tree.child? name children ≠ none) →
    places.parsePresent children p = (places.parseRequired children p).map places.present
  | _, _, .nil, _ => rfl
  | _, _, .cons name s places, hfound => by
    obtain ⟨hhead, htail⟩ := List.forall_mem_cons.mp hfound
    obtain ⟨t, ht⟩ := Option.ne_none_iff_exists'.mp hhead
    have hrest := parsePresent_eq_map htail
    simp only [parsePresent, parseRequired, ht, hrest, map_bind, bind_map]
    rfl

theorem given_of_parsePresent : ∀ {α β : Type} {places : NamedPlaces α β} {values : β},
    places.parsePresent children p = .ok values →
    places.given values = places.names.map fun name => Tree.carries name children
  | _, _, .nil, _, _ => rfl
  | _, _, .cons name s places, _, h => by
    simp only [parsePresent] at h
    rw [names, List.map_cons, ← Tree.isSome_child?]
    cases hc : Tree.child? name children with
    | none =>
      rw [hc] at h
      obtain ⟨values, hvalues, h⟩ := bind_eq_ok.mp h
      obtain rfl := Except.ok.inj h
      rw [given, given_of_parsePresent hvalues]
      rfl
    | some t =>
      rw [hc] at h
      obtain ⟨a, -, h⟩ := bind_eq_ok.mp h
      obtain ⟨values, hvalues, h⟩ := bind_eq_ok.mp h
      obtain rfl := Except.ok.inj h
      rw [given, given_of_parsePresent hvalues]
      rfl

end NamedPlaces

/-! ### Strict and lenient structs -/

/-- The strict payload wants what the lenient one may do without. If names are missing, it
refuses the children for these; otherwise its outcome is the lenient one, whose values are all
there (`present` marks them so). Of the values of the lenient payload those are there
(`given`) whose names are carried by a child. Both read tuple nodes by their fields. -/
structure Payload.StrictForm (strict : Payload α) (lenient : Payload β) (names : List String)
    (present : α → β) (given : β → List Bool) : Prop where
  parseFields (children : List Tree) (p : Path) :
    (strict.parseFields children p).map present =
      if (Tree.missing names children).isEmpty then lenient.parseFields children p
      else .error ⟨.missingFields (Tree.missing names children), p⟩
  given_eq {children : List Tree} {p : Path} {values : β}
    (h : lenient.parseFields children p = .ok values) :
    given values = names.map fun name => Tree.carries name children
  strict_readsTuples : strict.ReadsTuples
  lenient_readsTuples : lenient.ReadsTuples

theorem Payload.strictForm_of_walks {present : α → β} {given : β → List Bool}
    {v v' check : List Tree → Path → Except ParseError Unit}
    {required : List Tree → Path → Except ParseError α}
    {optional : List Tree → Path → Except ParseError β}
    (hcheck : ∀ children p, check children p =
      if (Tree.missing names children).isEmpty then .ok ()
      else .error ⟨.missingFields (Tree.missing names children), p⟩)
    (hfound : ∀ {children p}, (∀ name ∈ names, Tree.child? name children ≠ none) →
      optional children p = (required children p).map present)
    (hgiven : ∀ {children p values}, optional children p = .ok values →
      given values = names.map fun name => Tree.carries name children) :
    (ofFields v fun children p => check children p >>= fun _ => required children p).StrictForm
      (ofFields v' optional) names present given where
  parseFields children p := by
    show (check children p >>= fun _ => required children p).map present =
      if (Tree.missing names children).isEmpty then optional children p else _
    rw [hcheck]
    by_cases hmissing : (Tree.missing names children).isEmpty = true
    · rw [if_pos hmissing, if_pos hmissing, ok_bind]
      exact (hfound (Tree.child?_ne_none_of_missing hmissing)).symm
    · rw [if_neg hmissing, if_neg hmissing, error_bind]
      rfl
  given_eq := hgiven
  strict_readsTuples := readsTuples_ofFields _ _
  lenient_readsTuples := readsTuples_ofFields _ _

/-- **A strict struct is the lenient one unless a declared name is missing.** This is so
whatever the schemas of the fields do. If no child carries some of the declared names, the strict
struct fails with one error at its own path, which lists exactly these in the order of the
declaration. Otherwise its outcome is that of the lenient struct: the same error, or the same
values, none of which is absent. The lenient struct gives no value for a field exactly when no
child carries its name. This holds of structs over a list of fields and of those with a fixed
number of places. -/
theorem struct_strictForm :
    (∀ {α : Type} (fields : List (String × Schema α)),
      (Payload.struct fields).StrictForm (.lenientStruct fields) (fields.map (·.1))
        (List.map fun f => (f.1, some f.2)) (List.map fun f => f.2.isSome)) ∧
    (∀ {α β : Type} (places : NamedPlaces α β),
      (Payload.fixedStruct places).StrictForm (.fixedLenientStruct places) places.names
        places.present places.given) ∧
    ∀ names : List String, (Cause.missingFields names).kind = .missingFields ∧
      (Cause.missingFields names).message =
        "missing required field(s): " ++ ", ".intercalate names := by
  refine ⟨fun fields => ?_, fun places => ?_, fun names => ⟨rfl, rfl⟩⟩
  · exact Payload.strictForm_of_walks (Payload.checkMissing_eq fields) Payload.parsePresent_eq_map
      Payload.given_of_parsePresent
  · exact Payload.strictForm_of_walks places.checkMissing_eq NamedPlaces.parsePresent_eq_map
      NamedPlaces.given_of_parsePresent

end SborSchema
