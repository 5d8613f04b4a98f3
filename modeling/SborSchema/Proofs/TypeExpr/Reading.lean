/-
# Reading type expressions from documents

What the reader makes of a value, said without its recursion: a mapping with one
key is the composite of that name over what its body is read as, and lists of
fields, elements and variants are read member by member. Names are read as
leaves, arrays and options.

Key theorems: `TypeExpr.ofName_name`, `TypeExpr.ofName_induct`,
`TypeExpr.compositeOf_eq_ok`, `TypeExpr.fieldEntries_eq_ok`, `TypeExpr.elementItems_eq_ok`,
`TypeExpr.variantEntries_eq_ok`, `TypeExpr.partAt_eq_ok`.
-/
import Mathlib.Data.List.Forall2
import SborSchema.Proofs.Outcome
import SborSchema.TypeExpr.Document

namespace SborSchema.TypeExpr

/-! ### Names -/

variable {cs part : List Char}

theorem ofNameChars_array (h : elementName? (Text.trim cs) = some part) :
    ofNameChars cs = (ofNameChars part).map .array := by
  rw [ofNameChars]
  split
  · next element helement =>
    obtain rfl := Option.some.inj (helement.symm.trans h)
    rfl
  · next hnone => cases hnone.symm.trans h

theorem ofNameChars_option (harray : elementName? (Text.trim cs) = none)
    (h : innerName? (Text.trim cs) = some part) :
    ofNameChars cs = (ofNameChars part).map .option := by
  rw [ofNameChars]
  split
  · next hsome => cases harray.symm.trans hsome
  · split
    · next inner hinner =>
      obtain rfl := Option.some.inj (hinner.symm.trans h)
      rfl
    · next hnone => cases hnone.symm.trans h

/-- A text that is neither the name of an array nor that of an option is looked up. -/
theorem ofNameChars_other (harray : elementName? (Text.trim cs) = none)
    (hoption : innerName? (Text.trim cs) = none) :
    ofNameChars cs = match LeafType.ofName? (String.ofList (Text.trim cs)) with
      | some l => .ok (.leaf l)
      | none => .error (.unknownName (String.ofList (Text.trim cs))) := by
  rw [ofNameChars]
  split
  · next hsome => cases harray.symm.trans hsome
  · split
    · next hsome => cases hoption.symm.trans hsome
    · rfl

/-- The name of a leaf is read as the leaf. -/
theorem ofName_name (l : LeafType) : ofName l.name = .ok (.leaf l) := by
  have harray : elementName? (Text.trim l.name.toList) = none := by cases l <;> decide
  have hoption : innerName? (Text.trim l.name.toList) = none := by cases l <;> decide
  have hleaf : LeafType.ofName? (String.ofList (Text.trim l.name.toList)) = some l := by
    cases l <;> decide
  rw [ofName, ofNameChars_other harray hoption, hleaf]

/-- What holds of leaves, of arrays and of options holds of what a name is read as. -/
theorem ofNameChars_induct {P : TypeExpr → Prop} (hleaf : ∀ l, P (.leaf l))
    (harray : ∀ type, P type → P (.array type)) (hoption : ∀ type, P type → P (.option type)) :
    ∀ {cs : List Char} {type : TypeExpr}, ofNameChars cs = .ok type → P type := by
  intro cs
  induction cs using ofNameChars.induct with
  | case1 cs element helement hlength ih =>
    intro type h
    rw [ofNameChars_array helement] at h
    obtain ⟨inner, hinner, rfl⟩ := map_eq_ok.mp h
    exact harray inner (ih hinner)
  | case2 cs hnone element helement hlength ih =>
    intro type h
    rw [ofNameChars_option hnone helement] at h
    obtain ⟨inner, hinner, rfl⟩ := map_eq_ok.mp h
    exact hoption inner (ih hinner)
  | case3 cs hnone hnone' | case4 cs hnone hnone' =>
    intro type h
    rw [ofNameChars_other hnone hnone'] at h
    split at h
    · obtain rfl := Except.ok.inj h
      exact hleaf _
    · cases h

/-! ### Composites -/

/-- The type that a word and what is read of the body make. -/
inductive Composite (body : Yaml) : String → TypeExpr → Prop
  | struct {fields : List (String × TypeExpr)} (hfields : fieldsOf body = .ok fields) :
      Composite body "struct" (struct fields)
  | lenientStruct {fields : List (String × TypeExpr)} (hfields : fieldsOf body = .ok fields) :
      Composite body "struct_allowing_missing" (lenientStruct fields)
  | tuple {elements : List TypeExpr} (helements : elementsOf body = .ok elements) :
      Composite body "tuple" (tuple elements)
  | enum {variants : List (String × Option Layout)} (hvariants : variantsOf body = .ok variants) :
      Composite body "enum" (enum variants)
  | option {inner : TypeExpr} (hinner : ofYaml body = .ok inner) :
      Composite body "option" (option inner)
  | array {element : TypeExpr} (helement : ofYaml body = .ok element) :
      Composite body "array" (array element)
  | map {key value : TypeExpr} (hkey : partOf "key" body = .ok key)
      (hvalue : partOf "value" body = .ok value) : Composite body "map" (map key value)

/-- A mapping is read as a composite if its one key is the word of it. -/
theorem compositeOf_eq_ok {entries : List (Yaml × Yaml)} {type : TypeExpr} :
    compositeOf entries = .ok type ↔ ∃ key body word, entries = [(key, body)] ∧
      key.text? = some word ∧ Composite body word type := by
  constructor
  · intro h
    unfold compositeOf at h
    split at h
    · next key body =>
      split at h
      · cases h
      case h_9 => cases h
      case h_8 hword =>
        obtain ⟨k, hk, h⟩ := bind_eq_ok.mp h
        obtain ⟨v, hv, h⟩ := bind_eq_ok.mp h
        obtain rfl := Except.ok.inj h
        exact ⟨key, body, _, rfl, hword, .map hk hv⟩
      -- The other composites are made of one part, which the body is read as.
      all_goals
        next hword =>
        obtain ⟨part, hpart, h⟩ := bind_eq_ok.mp h
        obtain rfl := Except.ok.inj h
        exact ⟨key, body, _, rfl, hword, by constructor; exact hpart⟩
    · cases h
  · rintro ⟨key, body, word, rfl, hword, hcomposite⟩
    cases hcomposite with
    | struct h | lenientStruct h | tuple h | enum h | option h | array h =>
      simp only [compositeOf, hword, h]
      rfl
    | map hkey hvalue =>
      simp only [compositeOf, hword, hkey, hvalue]
      rfl

/-! ### Lists of parts -/

/-- The fields of a struct are read one by one. -/
theorem fieldEntries_eq_ok : ∀ {entries : List (Yaml × Yaml)} {fields : List (String × TypeExpr)},
    fieldEntries entries = .ok fields ↔
      List.Forall₂ (fun e f => e.1.text? = some f.1 ∧ ofYaml e.2 = .ok f.2) entries fields
  | [], fields => by
    rw [fieldEntries, Except.ok.injEq, List.forall₂_nil_left_iff, eq_comm]
  | (key, value) :: entries, fields => by
    rw [fieldEntries, List.forall₂_cons_left_iff]
    constructor
    · intro h
      cases hkey : key.text? with
      | none => simp [hkey] at h
      | some name =>
        simp only [hkey] at h
        obtain ⟨type, htype, h⟩ := bind_eq_ok.mp h
        obtain ⟨fields, hfields, h⟩ := bind_eq_ok.mp h
        obtain rfl := Except.ok.inj h
        exact ⟨(name, type), fields, ⟨rfl, mapError_eq_ok.mp htype⟩,
          fieldEntries_eq_ok.mp hfields, rfl⟩
    · rintro ⟨⟨name, type⟩, fields, ⟨hkey, htype⟩, hfields, rfl⟩
      simp only at hkey htype
      simp only [hkey, htype, fieldEntries_eq_ok.mpr hfields]
      rfl

/-- The elements of a tuple are read one by one, wherever the first one stands. -/
theorem elementItems_eq_ok : ∀ {items : List Yaml} {i : Nat} {types : List TypeExpr},
    elementItems items i = .ok types ↔ List.Forall₂ (fun y type => ofYaml y = .ok type) items types
  | [], i, types => by
    rw [elementItems, Except.ok.injEq, List.forall₂_nil_left_iff, eq_comm]
  | item :: items, i, types => by
    rw [elementItems, List.forall₂_cons_left_iff]
    constructor
    · intro h
      obtain ⟨type, htype, h⟩ := bind_eq_ok.mp h
      obtain ⟨types, htypes, h⟩ := bind_eq_ok.mp h
      obtain rfl := Except.ok.inj h
      exact ⟨type, types, mapError_eq_ok.mp htype, elementItems_eq_ok.mp htypes, rfl⟩
    · rintro ⟨type, types, htype, htypes, rfl⟩
      simp only [htype, elementItems_eq_ok.mpr htypes]
      rfl

/-- The variants of an enum are read one by one. -/
theorem variantEntries_eq_ok : ∀ {entries : List (Yaml × Yaml)}
    {variants : List (String × Option Layout)}, variantEntries entries = .ok variants ↔
      List.Forall₂ (fun e v => e.1.text? = some v.1 ∧ payloadOf e.2 (ofYaml e.2) = .ok v.2)
        entries variants
  | [], variants => by
    rw [variantEntries, Except.ok.injEq, List.forall₂_nil_left_iff, eq_comm]
  | (key, value) :: entries, variants => by
    rw [variantEntries, List.forall₂_cons_left_iff]
    constructor
    · intro h
      cases hkey : key.text? with
      | none => simp [hkey] at h
      | some name =>
        simp only [hkey] at h
        obtain ⟨payload, hpayload, h⟩ := bind_eq_ok.mp h
        obtain ⟨variants, hvariants, h⟩ := bind_eq_ok.mp h
        obtain rfl := Except.ok.inj h
        exact ⟨(name, payload), variants, ⟨rfl, mapError_eq_ok.mp hpayload⟩,
          variantEntries_eq_ok.mp hvariants, rfl⟩
    · rintro ⟨⟨name, payload⟩, variants, ⟨hkey, hpayload⟩, hvariants, rfl⟩
      simp only at hkey hpayload
      simp only [hkey, hpayload, variantEntries_eq_ok.mpr hvariants]
      rfl

/-- The payload of a variant is absent for null, and else the layout that the value describes. -/
theorem payloadOf_eq_ok {value : Yaml} {payload : Option Layout} :
    payloadOf value (ofYaml value) = .ok payload ↔
      (value.isNull = true ∧ payload = none) ∨
        (value.isNull = false ∧ ∃ L, ofYaml value = .ok (.layout L) ∧ payload = some L) := by
  rw [payloadOf]
  cases value.isNull with
  | true => simp [eq_comm]
  | false =>
    simp only [Bool.false_eq_true, if_false, false_and, true_and, false_or]
    constructor
    · intro h
      obtain ⟨type, htype, h⟩ := bind_eq_ok.mp h
      cases type with
      | layout L =>
        obtain rfl := Except.ok.inj h
        exact ⟨L, htype, rfl⟩
      | leaf | enum | option | map | array => cases h
    · rintro ⟨L, hL, rfl⟩
      rw [hL]
      rfl

/-- A part of a map is what the value of some entry is read as. -/
theorem partAt_eq_ok {name : String} {type : TypeExpr} : ∀ {entries : List (Yaml × Yaml)},
    partAt name entries = .ok type → ∃ e ∈ entries, ofYaml e.2 = .ok type
  | [], h => by
    rw [partAt] at h
    cases h
  | (key, value) :: entries, h => by
    rw [partAt] at h
    split at h
    · exact ⟨(key, value), List.mem_cons_self, h⟩
    · obtain ⟨e, he, htype⟩ := partAt_eq_ok h
      exact ⟨e, List.mem_cons_of_mem _ he, htype⟩

end SborSchema.TypeExpr
