/-
# Types side by side

Two types of one form have their parts side by side: under the same names, at
the same places. If the schemas of the parts have matching outcomes, so have
those of the two types.

Key definitions: `leftOf`, `rightOf`.
Key theorems: `Layout.struct_matches`, `Layout.tuple_matches`, `TypeExpr.enum_matches`.
-/
import SborSchema.Proofs.Schema.Correspondence
import SborSchema.Proofs.TypeExpr.Parts

namespace SborSchema

variable {α β : Type} {exact : Prop} {R S : Value → Value → Prop}

/-- The left ones of named pairs. -/
def leftOf (parts : List (String × α × β)) : List (String × α) := parts.map fun x => (x.1, x.2.1)

/-- The right ones of named pairs. -/
def rightOf (parts : List (String × α × β)) : List (String × β) := parts.map fun x => (x.1, x.2.2)

theorem mem_leftOf {parts : List (String × α × β)} {x : String × α × β} (hx : x ∈ parts) :
    (x.1, x.2.1) ∈ leftOf parts :=
  List.mem_map_of_mem hx

theorem names_leftOf (parts : List (String × α × β)) :
    (leftOf parts).map (·.1) = parts.map (·.1) := by
  rw [leftOf, List.map_map]
  rfl

theorem names_rightOf (parts : List (String × α × β)) :
    (rightOf parts).map (·.1) = parts.map (·.1) := by
  rw [rightOf, List.map_map]
  rfl

theorem find?_leftOf (parts : List (String × α × β)) (name : String) :
    (leftOf parts).find? (·.1 == name) =
      (parts.find? (·.1 == name)).map fun x => (x.1, x.2.1) := by
  rw [leftOf, List.find?_map]
  rfl

theorem find?_rightOf (parts : List (String × α × β)) (name : String) :
    (rightOf parts).find? (·.1 == name) =
      (parts.find? (·.1 == name)).map fun x => (x.1, x.2.2) := by
  rw [rightOf, List.find?_map]
  rfl

/-! ### Layouts -/

namespace Layout

/-- The record of a struct, strict or lenient, is that of what its fields give. -/
theorem payload_struct (allowMissing : Bool) (fields : List (String × TypeExpr)) :
    (struct allowMissing fields).payload =
      (Payload.structAllowing allowMissing (fieldSchemas fields)).map Value.lenientRecordOf := by
  cases allowMissing with
  | true => simp only [payload, Payload.structAllowing]
  | false =>
    have hrecord : Value.recordOf =
        Value.lenientRecordOf ∘ List.map fun g : String × Value => (g.1, some g.2) :=
      funext fun values => (lenientRecordOf_map_some values).symm
    simp only [payload, Payload.structAllowing]
    rw [hrecord, Payload.map_comp]

theorem struct_matches {parts : List (String × TypeExpr × TypeExpr)}
    {R : String × TypeExpr × TypeExpr → Value → Value → Prop} (allowMissing : Bool)
    (h : ∀ x ∈ parts, x.2.1.schema.Matches exact (R x) x.2.2.schema) :
    (Payload.structAllowing allowMissing (fieldSchemas (leftOf parts))).Matches exact
      (Placed (fun x => Payload.FieldRelated allowMissing x.1 (R x)) parts)
      (Payload.structAllowing allowMissing (fieldSchemas (rightOf parts))) := by
  rw [fieldSchemas_eq_map, fieldSchemas_eq_map, leftOf, rightOf, List.map_map, List.map_map]
  exact Payload.structAllowing_matches allowMissing h

theorem tuple_matches {parts : List (TypeExpr × TypeExpr)}
    {R : TypeExpr × TypeExpr → Value → Value → Prop}
    (h : ∀ x ∈ parts, x.1.schema.Matches exact (R x) x.2.schema)
    (hS : ∀ vs ws, Placed R parts vs ws → S (.tuple vs) (.tuple ws)) :
    (tuple (parts.map (·.1))).payload.Matches exact S (tuple (parts.map (·.2))).payload := by
  simp only [payload]
  rw [elementSchemas_eq_map, elementSchemas_eq_map, List.map_map, List.map_map]
  exact (Payload.tuple_matches h).map hS

end Layout

/-! ### Types -/

namespace TypeExpr

/-- A layout that stands by itself does what it does as a payload. -/
theorem layout_matches {L L' : Layout} (h : L.payload.Matches exact R L'.payload) :
    (layout L).schema.Matches exact R (layout L').schema := by
  simp only [schema]
  refine .of_parse (by rw [L.kinds_payload, L'.kinds_payload]) fun t p => ?_
  rw [Layout.parse_eq, Layout.parse_eq]
  refine (OutcomesMatch.refl (fun _ => rfl) (t.tupleFields p)).bind fun children _ hchildren => ?_
  exact hchildren ▸ h children p

theorem option_matches {inner inner' : TypeExpr} (h : inner.schema.Matches exact R inner'.schema)
    (hS : ∀ v w, Option.Rel R v w → S (.option v) (.option w)) :
    (option inner).schema.Matches exact S (option inner').schema := by
  simp only [schema]
  exact (Schema.option_matches h).map hS

theorem array_matches {element element' : TypeExpr}
    (h : element.schema.Matches exact R element'.schema)
    (hS : ∀ vs ws, List.Forall₂ R vs ws → S (.array vs) (.array ws)) :
    (array element).schema.Matches exact S (array element').schema := by
  simp only [schema]
  exact (Schema.array_matches h).map hS

theorem map_matches {key key' value value' : TypeExpr} {K V : Value → Value → Prop}
    (hkey : key.schema.Matches exact K key'.schema)
    (hvalue : value.schema.Matches exact V value'.schema)
    (hS : ∀ es es', List.Forall₂ (fun e e' => K e.1 e'.1 ∧ V e.2 e'.2) es es' →
      S (.map es) (.map es')) : (map key value).schema.Matches exact S (map key' value').schema := by
  simp only [schema]
  exact (Schema.mapping_matches hkey hvalue).map hS

/-- Two enums match if the first parts of each name do, wherever the right one declares its
variants. -/
theorem enum_matches {parts : List (String × Option Layout × Option Layout)}
    {right : List (String × Option Layout)} {Q : Layout → Layout → Prop}
    (hparts : ∀ x ∈ parts, Option.Rel Q x.2.1 x.2.2)
    (hunit : ∀ name, S (.enum name none) (.enum name none))
    (hpayload : ∀ name L L', parts.find? (·.1 == name) = some (name, some L, some L') → Q L L' →
      L.payload.Matches exact (fun v w => S (.enum name (some v)) (.enum name (some w)))
        L'.payload)
    (hnames : exact → right = rightOf parts)
    (hfind : ∀ name, (rightOf parts).find? (·.1 == name) = right.find? (·.1 == name)) :
    (enum (leftOf parts)).schema.Matches exact S (enum right).schema := by
  have hvariants (name : String) : Option.Rel
      (Variant.Matches exact fun c c' => S (.ofChoice c) (.ofChoice c'))
      ((variantsBy Layout.payload (leftOf parts)).find? (·.name == name))
      ((variantsBy Layout.payload right).find? (·.name == name)) := by
    rw [find?_variantsBy, find?_variantsBy, ← hfind, find?_leftOf, find?_rightOf]
    cases hx : parts.find? (·.1 == name) with
    | none => exact .none
    | some x =>
      obtain ⟨n, left, right⟩ := x
      obtain rfl : n = name := by simpa using List.find?_some hx
      have hpart : Option.Rel Q left right := hparts _ (List.mem_of_find?_eq_some hx)
      cases hpart with
      | none => exact .some (.unit (hunit n))
      | some hL => exact .some (.new (hpayload n _ _ hx hL))
  simp only [schema, variantSchemas_eq]
  refine (Schema.enum_matches (fun hexact => ?_) hvariants).map fun _ _ hchoice => hchoice
  rw [names_variantsBy, names_variantsBy, hnames hexact, names_leftOf, names_rightOf]

end TypeExpr

end SborSchema
