/-
# Values that are the same as JSON

JSON keeps the value of an integer and not its kind, and writes a missing field
as it writes an option that is absent. Values that differ in nothing else, at
any depth, become the same JSON value (`Value.Alike.toJson_eq`). That they are
the only ones is a matter of the type they were parsed with.

Key definitions: `Value.Alike`, `Value.AlikeField`, `Value.absent`.
Key theorems: `Value.Alike.toJson_eq`, `Value.alike_absent_iff`.
-/
import Mathlib.Data.List.Forall2
import SborSchema.Proofs.Integer
import SborSchema.Value

namespace SborSchema.Value

mutual

/-- The values are equal, but for the kinds of integers and for fields that are missing in
one and an absent option in the other. -/
inductive Alike : Value → Value → Prop
  | refl (v : Value) : Alike v v
  | integer {x y : Integer} (hvalue : x.value = y.value) : Alike (integer x) (integer y)
  | record {fs gs : List (String × Value)} (hfields : List.Forall₂ AlikeField fs gs) :
      Alike (record fs) (record gs)
  | tuple {vs ws : List Value} (hitems : List.Forall₂ Alike vs ws) : Alike (tuple vs) (tuple ws)
  | array {vs ws : List Value} (hitems : List.Forall₂ Alike vs ws) : Alike (array vs) (array ws)
  | map {es fs : List (Value × Value)} (hentries : List.Forall₂ AlikeEntry es fs) :
      Alike (map es) (map fs)
  | enum {variant : String} {v w : Value} (hpayload : Alike v w) :
      Alike (enum variant (some v)) (enum variant (some w))
  | option {v w : Value} (hinner : Alike v w) : Alike (option (some v)) (option (some w))

/-- Two fields of one name, with values that are alike, or of which one is missing and the
other an absent option. -/
inductive AlikeField : String × Value → String × Value → Prop
  | alike {name : String} {v w : Value} (h : Alike v w) : AlikeField (name, v) (name, w)
  | missingLeft {name : String} : AlikeField (name, missing) (name, .option none)
  | missingRight {name : String} : AlikeField (name, .option none) (name, missing)

/-- Two entries of which both the keys and the values are alike. -/
inductive AlikeEntry : Value × Value → Value × Value → Prop
  | alike {k l v w : Value} (hkey : Alike k l) (hvalue : Alike v w) : AlikeEntry (k, v) (l, w)

end

/-- What is alike is an option on both sides or on none. -/
theorem Alike.isOption_eq {v w : Value} (h : v.Alike w) : v.isOption = w.isOption := by
  cases h <;> rfl

theorem Alike.of_option {v w : Value}
    (h : (Value.option (some v)).Alike (Value.option (some w))) : v.Alike w := by
  cases h with
  | refl => exact .refl v
  | option hinner => exact hinner

mutual

/-- **Values that are alike are the same as JSON.** -/
theorem Alike.toJson_eq : ∀ {v w : Value}, v.Alike w → v.toJson = w.toJson
  | .missing, _, h | .bool _, _, h | .string _, _, h | .bytes _, _, h | .decimal _, _, h
  | .address _, _, h | .internalAddress _, _, h | .nonFungibleLocalId _, _, h
  | .timestamp _, _, h | .raw _, _, h => by
    cases h
    rfl
  | .integer x, _, h => by
    cases h with
    | refl => rfl
    | integer hvalue => simp only [toJson, Integer.toJson_eq_iff.mpr hvalue]
  | .record fs, _, h => by
    cases h with
    | refl => rfl
    | record hfields => simp only [toJson, jsonFields_eq hfields]
  | .tuple vs, _, h => by
    cases h with
    | refl => rfl
    | tuple hitems => simp only [toJson, jsonItems_eq hitems]
  | .array vs, _, h => by
    cases h with
    | refl => rfl
    | array hitems => simp only [toJson, jsonItems_eq hitems]
  | .map es, _, h => by
    cases h with
    | refl => rfl
    | map hentries => simp only [toJson, jsonEntries_eq hentries]
  | .enum _ none, _, h => by
    cases h
    rfl
  | .enum _ (some v), _, h => by
    cases h with
    | refl => rfl
    | enum hpayload => simp only [toJson, hpayload.toJson_eq]
  | .option none, _, h => by
    cases h
    rfl
  | .option (some v), _, h => by
    cases h with
    | refl => rfl
    | option hinner => simp only [toJson, hinner.isOption_eq, hinner.toJson_eq]

theorem jsonFields_eq : ∀ {fs gs : List (String × Value)}, List.Forall₂ AlikeField fs gs →
    jsonFields fs = jsonFields gs
  | [], _, h => by
    cases h
    rfl
  | (name, v) :: fs, _, h => by
    cases h with
    | cons head tail =>
      cases head with
      | alike hvw => simp only [jsonFields, hvw.toJson_eq, jsonFields_eq tail]
      | missingLeft | missingRight => simp only [jsonFields, toJson, jsonFields_eq tail]

theorem jsonItems_eq : ∀ {vs ws : List Value}, List.Forall₂ Alike vs ws →
    jsonItems vs = jsonItems ws
  | [], _, h => by
    cases h
    rfl
  | v :: vs, _, h => by
    cases h with
    | cons head tail => simp only [jsonItems, head.toJson_eq, jsonItems_eq tail]

theorem jsonEntries_eq : ∀ {es fs : List (Value × Value)}, List.Forall₂ AlikeEntry es fs →
    jsonEntries es = jsonEntries fs
  | [], _, h => by
    cases h
    rfl
  | (k, v) :: es, _, h => by
    cases h with
    | cons head tail =>
      cases head with
      | alike hkey hvalue =>
        simp only [jsonEntries, hkey.toJson_eq, hvalue.toJson_eq, jsonEntries_eq tail]

end

/-! ### Nested options -/

/-- The option of options that is absent below a number of present ones. -/
def absent : Nat → Value
  | 0 => .option none
  | depth + 1 => .option (some (absent depth))

/-- Options that are absent at different depths are not alike. -/
theorem alike_absent_iff : ∀ {m n : Nat}, (absent m).Alike (absent n) ↔ m = n
  | 0, 0 => ⟨fun _ => rfl, fun _ => .refl _⟩
  | 0, n + 1 => ⟨nofun, nofun⟩
  | m + 1, 0 => ⟨nofun, nofun⟩
  | m + 1, n + 1 => by
    constructor
    · intro h
      exact congrArg (· + 1) (alike_absent_iff.mp h.of_option)
    · intro h
      exact .option (alike_absent_iff.mpr (Nat.succ.inj h))

end SborSchema.Value
