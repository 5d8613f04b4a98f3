/-
# Options spelled out

An option can be written out as the enum of a unit `None` and a `Some` with a
tuple of one element. Where some options of a type are spelled out, at any
depth, the same trees are accepted, the same errors reported at the same
places, and the values differ exactly where the types do: `none` is the unit
`None`, and `some v` is the variant `Some` of the tuple of `v` alone.

Key definitions: `TypeExpr.spelledOption`, `TypeExpr.SpellsOut`, `TypeExpr.Corresponds`.
Key theorems: `TypeExpr.spelledOption_matches`, `TypeExpr.respelled_hereditary`,
`run_of_spellsOut`.
-/
import SborSchema.Proofs.TypeExpr.SideBySide

namespace SborSchema

/-- The enum that an option stands for. -/
def TypeExpr.spelledOption (inner : TypeExpr) : TypeExpr :=
  .enum [("None", none), ("Some", some (.tuple [inner]))]

mutual

/-- The second type is the first one, with some of its options spelled out. -/
inductive TypeExpr.SpellsOut : TypeExpr → TypeExpr → Prop
  | leaf (l : LeafType) : TypeExpr.SpellsOut (.leaf l) (.leaf l)
  | layout {L L' : Layout} (hlayout : Layout.SpellsOut L L') :
      TypeExpr.SpellsOut (.layout L) (.layout L')
  | enum {parts : List (String × Option Layout × Option Layout)}
      (hparts : ∀ x ∈ parts, Option.Rel Layout.SpellsOut x.2.1 x.2.2) :
      TypeExpr.SpellsOut (.enum (leftOf parts)) (.enum (rightOf parts))
  | option {inner inner' : TypeExpr} (hinner : TypeExpr.SpellsOut inner inner') :
      TypeExpr.SpellsOut (.option inner) (.option inner')
  | spelled {inner inner' : TypeExpr} (hinner : TypeExpr.SpellsOut inner inner') :
      TypeExpr.SpellsOut (.option inner) (.spelledOption inner')
  | map {key key' value value' : TypeExpr} (hkey : TypeExpr.SpellsOut key key')
      (hvalue : TypeExpr.SpellsOut value value') :
      TypeExpr.SpellsOut (.map key value) (.map key' value')
  | array {element element' : TypeExpr} (helement : TypeExpr.SpellsOut element element') :
      TypeExpr.SpellsOut (.array element) (.array element')

/-- The same of layouts. -/
inductive Layout.SpellsOut : Layout → Layout → Prop
  | struct {allowMissing : Bool} {parts : List (String × TypeExpr × TypeExpr)}
      (hparts : ∀ x ∈ parts, TypeExpr.SpellsOut x.2.1 x.2.2) :
      Layout.SpellsOut (.struct allowMissing (leftOf parts)) (.struct allowMissing (rightOf parts))
  | tuple {parts : List (TypeExpr × TypeExpr)}
      (hparts : ∀ x ∈ parts, TypeExpr.SpellsOut x.1 x.2) :
      Layout.SpellsOut (.tuple (parts.map (·.1))) (.tuple (parts.map (·.2)))

end

/-! ### Values of a type and of one with options spelled out -/

mutual

/-- The values of two types that stand for each other: the same but for the options that only
the first type has. -/
inductive TypeExpr.Corresponds : TypeExpr → TypeExpr → Value → Value → Prop
  | leaf (l : LeafType) (v : Value) : TypeExpr.Corresponds (.leaf l) (.leaf l) v v
  | layout {L L' : Layout} {v w : Value} (h : Layout.Corresponds L L' v w) :
      TypeExpr.Corresponds (.layout L) (.layout L') v w
  | unit {parts : List (String × Option Layout × Option Layout)} (name : String) :
      TypeExpr.Corresponds (.enum (leftOf parts)) (.enum (rightOf parts)) (.enum name none)
        (.enum name none)
  | variant {parts : List (String × Option Layout × Option Layout)} {name : String}
      {L L' : Layout} {v w : Value}
      (hfirst : parts.find? (·.1 == name) = some (name, some L, some L'))
      (h : Layout.Corresponds L L' v w) :
      TypeExpr.Corresponds (.enum (leftOf parts)) (.enum (rightOf parts)) (.enum name (some v))
        (.enum name (some w))
  | none {inner inner' : TypeExpr} :
      TypeExpr.Corresponds (.option inner) (.option inner') (.option none) (.option none)
  | some {inner inner' : TypeExpr} {v w : Value} (h : TypeExpr.Corresponds inner inner' v w) :
      TypeExpr.Corresponds (.option inner) (.option inner') (.option (some v)) (.option (some w))
  | spelledNone {inner inner' : TypeExpr} :
      TypeExpr.Corresponds (.option inner) (.spelledOption inner') (.option none)
        (.enum "None" none)
  | spelledSome {inner inner' : TypeExpr} {v w : Value}
      (h : TypeExpr.Corresponds inner inner' v w) :
      TypeExpr.Corresponds (.option inner) (.spelledOption inner') (.option (some v))
        (.enum "Some" (some (.tuple [w])))
  | map {key key' value value' : TypeExpr} {es es' : List (Value × Value)}
      (hlength : es.length = es'.length)
      (hkeys : ∀ e e', (e, e') ∈ es.zip es' → TypeExpr.Corresponds key key' e.1 e'.1)
      (hvalues : ∀ e e', (e, e') ∈ es.zip es' → TypeExpr.Corresponds value value' e.2 e'.2) :
      TypeExpr.Corresponds (.map key value) (.map key' value') (.map es) (.map es')
  | array {element element' : TypeExpr} {vs ws : List Value} (hlength : vs.length = ws.length)
      (hitems : ∀ v w, (v, w) ∈ vs.zip ws → TypeExpr.Corresponds element element' v w) :
      TypeExpr.Corresponds (.array element) (.array element') (.array vs) (.array ws)

/-- What two structs find under the name of a declared field: values that stand for each other,
or nothing where that is allowed. -/
inductive Layout.FieldCorresponds : Bool → String × TypeExpr × TypeExpr →
    String × Option Value → String × Option Value → Prop
  | present {allowMissing : Bool} {name : String} {type type' : TypeExpr} {v w : Value}
      (h : TypeExpr.Corresponds type type' v w) :
      Layout.FieldCorresponds allowMissing (name, type, type') (name, some v) (name, some w)
  | absent {name : String} {type type' : TypeExpr} :
      Layout.FieldCorresponds true (name, type, type') (name, none) (name, none)

/-- The values of two layouts that stand for each other. -/
inductive Layout.Corresponds : Layout → Layout → Value → Value → Prop
  | struct {allowMissing : Bool} {parts : List (String × TypeExpr × TypeExpr)}
      {fs gs : List (String × Option Value)} (hleft : fs.length = parts.length)
      (hright : gs.length = parts.length)
      (hfields : ∀ x f g, (x, f, g) ∈ parts.zip (fs.zip gs) →
        Layout.FieldCorresponds allowMissing x f g) :
      Layout.Corresponds (.struct allowMissing (leftOf parts))
        (.struct allowMissing (rightOf parts)) (.lenientRecordOf fs) (.lenientRecordOf gs)
  | tuple {parts : List (TypeExpr × TypeExpr)} {vs ws : List Value}
      (hleft : vs.length = parts.length) (hright : ws.length = parts.length)
      (hitems : ∀ x v w, (x, v, w) ∈ parts.zip (vs.zip ws) →
        TypeExpr.Corresponds x.1 x.2 v w) :
      Layout.Corresponds (.tuple (parts.map (·.1))) (.tuple (parts.map (·.2))) (.tuple vs)
        (.tuple ws)

end

/-- Spelling out options of the type keeps its errors, and its values up to the options. -/
def TypeExpr.Respelled (type : TypeExpr) : Prop :=
  ∀ type', type.SpellsOut type' → type.schema.Matches True (type.Corresponds type') type'.schema

/-- The same of a layout. -/
def Layout.Respelled (L : Layout) : Prop :=
  ∀ L', L.SpellsOut L' → L.payload.Matches True (L.Corresponds L') L'.payload

/-! ### Layouts -/

namespace Layout

theorem respelled_struct (allowMissing : Bool) (fields : List (String × TypeExpr))
    (hrespelled : ∀ f ∈ fields, f.2.Respelled) : (struct allowMissing fields).Respelled := by
  intro _ hspells
  cases hspells with
  | @struct _ parts hparts =>
  have hmatch (x) (hx : x ∈ parts) :
      x.2.1.schema.Matches True (x.2.1.Corresponds x.2.2) x.2.2.schema :=
    hrespelled _ (mem_leftOf hx) _ (hparts x hx)
  rw [payload_struct, payload_struct]
  refine (struct_matches allowMissing hmatch).map fun fs gs hplaced => ?_
  obtain ⟨hleft, hright, hfields⟩ := hplaced.zip
  refine .struct hleft hright fun x f g hxfg => ?_
  have hfield := hfields x f g hxfg
  cases hfield with
  | present h => exact .present h
  | absent hallow =>
    subst hallow
    exact .absent

theorem respelled_tuple (elements : List TypeExpr)
    (hrespelled : ∀ type ∈ elements, type.Respelled) : (tuple elements).Respelled := by
  intro _ hspells
  cases hspells with
  | @tuple parts hparts =>
  have hmatch (x) (hx : x ∈ parts) : x.1.schema.Matches True (x.1.Corresponds x.2) x.2.schema :=
    hrespelled x.1 (List.mem_map_of_mem hx) _ (hparts x hx)
  refine tuple_matches hmatch fun vs ws hplaced => ?_
  obtain ⟨hleft, hright, hitems⟩ := hplaced.zip
  exact .tuple hleft hright hitems

end Layout

/-! ### Types -/

namespace TypeExpr

theorem respelled_leaf (l : LeafType) : (leaf l).Respelled := by
  rintro _ ⟨⟩
  exact fun t p => .refl (.leaf l) _

theorem respelled_layout (L : Layout) (hrespelled : L.Respelled) : (layout L).Respelled := by
  intro _ hspells
  cases hspells with
  | layout hlayout =>
    exact layout_matches fun fields p =>
      (hrespelled _ hlayout fields p).imp fun _ _ _ _ => .layout

theorem respelled_enum (variants : List (String × Option Layout))
    (hrespelled : ∀ v ∈ variants, ∀ L, v.2 = some L → L.Respelled) :
    (enum variants).Respelled := by
  intro _ hspells
  cases hspells with
  | @enum parts hparts =>
  refine enum_matches hparts .unit (fun name L L' hfirst hL => ?_) (fun _ => rfl) fun _ => rfl
  have hleft : (name, some L) ∈ leftOf parts :=
    mem_leftOf (List.mem_of_find?_eq_some hfirst)
  exact fun fields p =>
    (hrespelled _ hleft L rfl L' hL fields p).imp fun _ _ _ _ => .variant hfirst

/-- **An option does what the enum it stands for does.** The payload of the chosen option goes
through a tuple of one place, that of the enum through a list of one element. -/
theorem spelledOption_matches {inner inner' : TypeExpr} {R S : Value → Value → Prop}
    (h : inner.schema.Matches True R inner'.schema) (hnone : S (.option none) (.enum "None" none))
    (hsome : ∀ v w, R v w → S (.option (some v)) (.enum "Some" (some (.tuple [w])))) :
    (option inner).schema.Matches True S (spelledOption inner').schema := by
  have hpayload : ((Payload.fixedTuple (.cons inner.schema .nil)).map Prod.fst).Matches True
      (fun v w => ∃ w', w = .tuple [w'] ∧ R v w') (Layout.tuple [inner']).payload := by
    simp only [Layout.payload, elementSchemas]
    refine (Payload.fixedTuple_one_matches_tuple h).map fun a ws hws => ?_
    obtain ⟨w, rfl, hvw⟩ := hws
    exact ⟨w, rfl, hvw⟩
  have hspelled : (spelledOption inner').schema =
      (Schema.enum [.unit "None", .new "Some" (Layout.tuple [inner']).payload]).map .ofChoice := by
    simp only [spelledOption, schema, variantSchemas]
    rfl
  rw [hspelled]
  simp only [schema]
  rw [Schema.option_eq_map_enum, ← Schema.map_comp]
  refine (Schema.optionEnum_matches hpayload).map fun c c' hchoice => ?_
  cases hchoice with
  | unit => exact hnone
  | payload hvalues =>
    obtain ⟨w, rfl, hvw⟩ := hvalues
    exact hsome _ w hvw

theorem respelled_option (inner : TypeExpr) (hrespelled : inner.Respelled) :
    (option inner).Respelled := by
  intro _ hspells
  cases hspells with
  | option hinner =>
    refine option_matches (hrespelled _ hinner) fun v w hvw => ?_
    cases hvw with
    | none => exact .none
    | some h => exact .some h
  | spelled hinner =>
    exact spelledOption_matches (hrespelled _ hinner) .spelledNone fun _ _ => .spelledSome

theorem respelled_map (key value : TypeExpr) (hkey : key.Respelled) (hvalue : value.Respelled) :
    (map key value).Respelled := by
  intro _ hspells
  cases hspells with
  | map hkey' hvalue' =>
  refine map_matches (hkey _ hkey') (hvalue _ hvalue') fun es es' h => ?_
  exact .map h.length_eq (fun e e' he => (List.forall₂_zip h he).1)
    fun e e' he => (List.forall₂_zip h he).2

theorem respelled_array (element : TypeExpr) (hrespelled : element.Respelled) :
    (array element).Respelled := by
  intro _ hspells
  cases hspells with
  | array helement =>
    exact array_matches (hrespelled _ helement) fun vs ws h =>
      .array h.length_eq fun v w => List.forall₂_zip h

theorem respelled_hereditary : Hereditary Respelled Layout.Respelled where
  leaf := respelled_leaf
  layout := respelled_layout
  enum := respelled_enum
  option := respelled_option
  map := respelled_map
  array := respelled_array
  struct := Layout.respelled_struct
  tuple := Layout.respelled_tuple

end TypeExpr

/-- **Spelling out options changes no outcome but for the options**: on every tree, both types
succeed, with values that stand for each other, or both report the same error. -/
theorem run_of_spellsOut {type type' : TypeExpr} (h : type.SpellsOut type') (t : Tree) :
    (∃ v w, type.schema.run t = .ok v ∧ type'.schema.run t = .ok w ∧
      type.Corresponds type' v w) ∨
    ∃ e, type.schema.run t = .error e ∧ type'.schema.run t = .error e :=
  (TypeExpr.respelled_hereditary.type type type' h t .root).ok_or_error

/-- Of the two options of a tuple, only the second one is spelled out. -/
theorem run_of_spellsOut_second :
    (TypeExpr.tuple [.option (.leaf .string), .option (.leaf .string)]).SpellsOut
      (.tuple [.option (.leaf .string), .spelledOption (.leaf .string)]) ∧
    (TypeExpr.tuple [.option (.leaf .string), .option (.leaf .string)]).schema.run
      (.tuple {} [.enum {} "0" (some "None") [],
        .enum {} "1" (some "Some") [.leaf {} (.string "card")]]) =
      .ok (.tuple [.option none, .option (some (.string "card"))]) ∧
    (TypeExpr.tuple [.option (.leaf .string), .spelledOption (.leaf .string)]).schema.run
      (.tuple {} [.enum {} "0" (some "None") [],
        .enum {} "1" (some "Some") [.leaf {} (.string "card")]]) =
      .ok (.tuple [.option none, .enum "Some" (some (.tuple [.string "card"]))]) ∧
    (TypeExpr.tuple [.option (.leaf .string), .option (.leaf .string)]).Corresponds
      (.tuple [.option (.leaf .string), .spelledOption (.leaf .string)])
      (.tuple [.option none, .option (some (.string "card"))])
      (.tuple [.option none, .enum "Some" (some (.tuple [.string "card"]))]) := by
  have hspells : (TypeExpr.tuple [.option (.leaf .string), .option (.leaf .string)]).SpellsOut
      (.tuple [.option (.leaf .string), .spelledOption (.leaf .string)]) := by
    refine .layout (@Layout.SpellsOut.tuple [(.option (.leaf .string), .option (.leaf .string)),
      (.option (.leaf .string), .spelledOption (.leaf .string))] ?_)
    rintro x hx
    rcases List.mem_pair.mp hx with rfl | rfl
    · exact .option (.leaf .string)
    · exact .spelled (.leaf .string)
  have hleft : (TypeExpr.tuple [.option (.leaf .string), .option (.leaf .string)]).schema.run
      (.tuple {} [.enum {} "0" (some "None") [],
        .enum {} "1" (some "Some") [.leaf {} (.string "card")]]) =
      .ok (.tuple [.option none, .option (some (.string "card"))]) := rfl
  have hright : (TypeExpr.tuple [.option (.leaf .string), .spelledOption (.leaf .string)]).schema.run
      (.tuple {} [.enum {} "0" (some "None") [],
        .enum {} "1" (some "Some") [.leaf {} (.string "card")]]) =
      .ok (.tuple [.option none, .enum "Some" (some (.tuple [.string "card"]))]) := rfl
  refine ⟨hspells, hleft, hright, ?_⟩
  rcases run_of_spellsOut hspells (.tuple {} [.enum {} "0" (some "None") [],
    .enum {} "1" (some "Some") [.leaf {} (.string "card")]]) with ⟨v, w, hv, hw, hvw⟩ | ⟨e, he, -⟩
  · obtain rfl := Except.ok.inj (hleft.symm.trans hv)
    obtain rfl := Except.ok.inj (hright.symm.trans hw)
    exact hvw
  · cases hleft.symm.trans he

end SborSchema
