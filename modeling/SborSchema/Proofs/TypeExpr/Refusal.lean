/-
# Why type expressions are refused

What the reader refuses, said without its recursion. A list of fields, elements or
variants is refused for the first of them that cannot be read, below its place; a
map is refused for its key type before its value type; and a composite is
refused for what its body is refused for.

Key definitions: `TypeError.below`, `TypeExpr.IsType`, `TypeExpr.IsField`, `TypeExpr.IsVariant`,
`TypeExpr.CompositeFails`.
Key theorems: `TypeError.message_below`, `TypeExpr.fieldsOf_eq_error`,
`TypeExpr.elementsOf_eq_error`, `TypeExpr.variantsOf_eq_error`, `TypeExpr.payloadOf_eq_error`,
`TypeExpr.partOf_eq_error`, `TypeExpr.compositeOf_eq_error`.
-/
import SborSchema.Proofs.TypeExpr.Reading
import SborSchema.Proofs.Yaml

namespace SborSchema

/-! ### Errors seen from further out -/

namespace TypeError

/-- The error as seen from where the places lead to it. -/
def below (places : List TypePlace) (e : TypeError) : TypeError := ⟨places ++ e.places, e.fault⟩

theorem below_append (e : TypeError) (places places' : List TypePlace) :
    e.below (places ++ places') = (e.below places').below places := by
  rw [below, below, below, List.append_assoc]

theorem lead_append (places places' : List TypePlace) :
    lead (places ++ places') = lead places ++ lead places' := by
  rw [lead, lead, lead, List.map_append, String.join_append]

theorem lead_cons (place : TypePlace) (places : List TypePlace) :
    lead (place :: places) = place.text ++ ": " ++ lead places := by
  rw [lead, lead, List.map_cons, String.join_cons]

theorem lead_field (name : String) (places : List TypePlace) :
    lead (.field name :: places) = "field '" ++ name ++ "': " ++ lead places := by
  have hquote : "': " = "'" ++ ": " := rfl
  rw [lead_cons, TypePlace.text, hquote]
  simp only [String.append_assoc]

theorem lead_element (i : Nat) (places : List TypePlace) :
    lead (.element i :: places) = "element " ++ Digits.text i ++ ": " ++ lead places := by
  rw [lead_cons, TypePlace.text]

theorem lead_variant (name : String) (places : List TypePlace) :
    lead (.variant name :: places) = "variant '" ++ name ++ "': " ++ lead places := by
  have hquote : "': " = "'" ++ ": " := rfl
  rw [lead_cons, TypePlace.text, hquote]
  simp only [String.append_assoc]

/-- Seen from further out, the wording has the places in front. -/
theorem message_below (places : List TypePlace) (e : TypeError) :
    (e.below places).message = lead places ++ e.message := by
  rw [message, message, below, lead_append, String.append_assoc]

end TypeError

namespace TypeExpr

variable {α : Type} {e : TypeError} {body : Yaml}

/-! ### Lists of parts -/

/-- The value describes a type. -/
def IsType (y : Yaml) : Prop := ∃ type, ofYaml y = .ok type

/-- The entry declares a field. -/
def IsField (entry : Yaml × Yaml) : Prop :=
  (∃ name, entry.1.text? = some name) ∧ IsType entry.2

/-- The entry declares a variant: a unit, or one whose payload is a layout. -/
def IsVariant (entry : Yaml × Yaml) : Prop :=
  (∃ name, entry.1.text? = some name) ∧
    (entry.2.isNull = true ∨ ∃ L, ofYaml entry.2 = .ok (.layout L))

/-- The entry of a mapping, read under its name; a key that is no text is at fault. -/
def namedOf (fault : Yaml → TypeFault) (place : String → TypePlace)
    (read : Yaml → Except TypeError α) (entry : Yaml × Yaml) : Except TypeError (String × α) :=
  match entry.1.text? with
  | none => .error (.here (fault entry.1))
  | some name => ((read entry.2).mapError (.under (place name))).map (name, ·)

section Named

variable {fault : Yaml → TypeFault} {place : String → TypePlace} {read : Yaml → Except TypeError α}
  {entry : Yaml × Yaml}

theorem exists_namedOf_eq_ok : (∃ named, namedOf fault place read entry = .ok named) ↔
    (∃ name, entry.1.text? = some name) ∧ ∃ a, read entry.2 = .ok a := by
  rw [namedOf]
  cases entry.1.text? with
  | none => simp
  | some name => simp [map_eq_ok, mapError_eq_ok]

theorem namedOf_eq_error : namedOf fault place read entry = .error e ↔
    (entry.1.text? = none ∧ e = .here (fault entry.1)) ∨
      ∃ name e', entry.1.text? = some name ∧ read entry.2 = .error e' ∧
        e = e'.below [place name] := by
  rw [namedOf]
  cases entry.1.text? with
  | none => simp [eq_comm]
  | some name =>
    simp only [map_eq_error, mapError_eq_error, reduceCtorEq, false_and, false_or,
      Option.some.injEq, exists_and_left, exists_eq_left']
    exact exists_congr fun e' => and_congr_right fun _ => eq_comm

/-- Entries are refused for the first of them that has no name or cannot be read. -/
theorem mapM_namedOf_eq_error {entries : List (Yaml × Yaml)} :
    entries.mapM (namedOf fault place read) = .error e ↔
      ∃ before entry after, entries = before ++ entry :: after ∧
        (∀ entry ∈ before, (∃ name, entry.1.text? = some name) ∧ ∃ a, read entry.2 = .ok a) ∧
        ((entry.1.text? = none ∧ e = .here (fault entry.1)) ∨
          ∃ name e', entry.1.text? = some name ∧ read entry.2 = .error e' ∧
            e = e'.below [place name]) := by
  simp only [mapM_eq_error, exists_namedOf_eq_ok, namedOf_eq_error]

end Named

theorem fieldEntries_eq_mapM : ∀ entries : List (Yaml × Yaml),
    fieldEntries entries = entries.mapM (namedOf .fieldName .field ofYaml)
  | [] => by
    rw [fieldEntries]
    rfl
  | (key, value) :: entries => by
    rw [fieldEntries, List.mapM_cons, ← fieldEntries_eq_mapM entries, namedOf]
    cases key.text? with
    | none => rfl
    | some name => cases ofYaml value <;> rfl

theorem variantEntries_eq_mapM : ∀ entries : List (Yaml × Yaml),
    variantEntries entries =
      entries.mapM (namedOf .variantName .variant fun y => payloadOf y (ofYaml y))
  | [] => by
    rw [variantEntries]
    rfl
  | (key, value) :: entries => by
    rw [variantEntries, List.mapM_cons, ← variantEntries_eq_mapM entries, namedOf]
    cases key.text? with
    | none => rfl
    | some name => cases payloadOf value (ofYaml value) <;> rfl

theorem elementItems_eq_mapM : ∀ (items : List Yaml) (i : Nat), elementItems items i =
    (items.zipIdx i).mapM fun item => (ofYaml item.1).mapError (.under (.element item.2))
  | [], i => by
    rw [elementItems]
    rfl
  | item :: items, i => by
    rw [elementItems, List.zipIdx_cons, List.mapM_cons, ← elementItems_eq_mapM items]

theorem exists_payloadOf_eq_ok {value : Yaml} :
    (∃ payload, payloadOf value (ofYaml value) = .ok payload) ↔
      value.isNull = true ∨ ∃ L, ofYaml value = .ok (.layout L) := by
  simp only [payloadOf_eq_ok]
  cases value.isNull <;> simp

theorem layoutOf_eq_error {type : TypeExpr} : layoutOf type = .error e ↔
    (∀ L, type ≠ .layout L) ∧ e = .here (.notLayout type) := by
  cases type <;> simp [layoutOf, eq_comm]

/-- A payload is refused if its value describes no type, or a type that is no layout. -/
theorem payloadOf_eq_error {value : Yaml} : payloadOf value (ofYaml value) = .error e ↔
    value.isNull = false ∧ (ofYaml value = .error e ∨
      ∃ type, ofYaml value = .ok type ∧ (∀ L, type ≠ .layout L) ∧ e = .here (.notLayout type)) := by
  rw [payloadOf]
  cases value.isNull with
  | true => simp
  | false =>
    simp only [Bool.false_eq_true, if_false, true_and]
    rw [bind_eq_error]
    refine or_congr_right (exists_congr fun type => and_congr_right fun _ => ?_)
    rw [bind_pure_eq_error, layoutOf_eq_error]

/-! ### Bodies of composites -/

/-- The fields of a struct are refused for the first entry that declares none. -/
theorem fieldsOf_eq_error : fieldsOf body = .error e ↔
    (body ≠ .null ∧ (∀ entries, body ≠ .mapping entries) ∧ e = .here (.structBody body)) ∨
    ∃ before entry after, body = .mapping (before ++ entry :: after) ∧
      (∀ entry ∈ before, IsField entry) ∧
      ((entry.1.text? = none ∧ e = .here (.fieldName entry.1)) ∨
        ∃ name e', entry.1.text? = some name ∧ ofYaml entry.2 = .error e' ∧
          e = e'.below [.field name]) := by
  cases body with
  | mapping entries =>
    rw [fieldsOf, fieldEntries_eq_mapM, mapM_namedOf_eq_error]
    constructor
    · rintro ⟨before, entry, after, rfl, hbefore, hentry⟩
      exact .inr ⟨before, entry, after, rfl, hbefore, hentry⟩
    · rintro (⟨-, hne, -⟩ | ⟨before, entry, after, hbody, hbefore, hentry⟩)
      · exact absurd rfl (hne entries)
      · exact ⟨before, entry, after, Yaml.mapping.inj hbody, hbefore, hentry⟩
  | _ => simp [fieldsOf, eq_comm]

theorem forall_mem_zipIdx_iff {P : Yaml → Prop} {items : List Yaml} {i : Nat} :
    (∀ item ∈ items.zipIdx i, P item.1) ↔ ∀ item ∈ items, P item := by
  rw [← List.forall_mem_map, List.zipIdx_map_fst]

/-- The items of a sequence are refused for the first of them that describes no type. -/
theorem elementItems_eq_error {items : List Yaml} {i : Nat} : elementItems items i = .error e ↔
    ∃ before item after e', items = before ++ item :: after ∧ (∀ item ∈ before, IsType item) ∧
      ofYaml item = .error e' ∧ e = e'.below [.element (i + before.length)] := by
  rw [elementItems_eq_mapM, mapM_eq_error]
  simp only [mapError_eq_ok, mapError_eq_error]
  constructor
  · rintro ⟨before, ⟨item, j⟩, after, hsplit, hbefore, e', hitem, rfl⟩
    obtain ⟨before, rest, rfl, rfl, hrest⟩ := List.zipIdx_eq_append_iff.mp hsplit
    obtain ⟨item, after, rfl, hhead, -⟩ := List.zipIdx_eq_cons_iff.mp hrest.symm
    obtain ⟨rfl, rfl⟩ := Prod.mk.inj hhead
    exact ⟨before, item, _, e', rfl, forall_mem_zipIdx_iff.mp hbefore, hitem, rfl⟩
  · rintro ⟨before, item, after, e', rfl, hbefore, hitem, rfl⟩
    refine ⟨before.zipIdx i, (item, i + before.length), after.zipIdx (i + before.length + 1), ?_,
      forall_mem_zipIdx_iff.mpr hbefore, e', hitem, rfl⟩
    rw [List.zipIdx_append, List.zipIdx_cons]

/-- The elements of a tuple are refused for the first item that describes no type. -/
theorem elementsOf_eq_error : elementsOf body = .error e ↔
    (body ≠ .null ∧ (∀ items, body ≠ .sequence items) ∧ e = .here (.tupleBody body)) ∨
    ∃ before item after e', body = .sequence (before ++ item :: after) ∧
      (∀ item ∈ before, IsType item) ∧ ofYaml item = .error e' ∧
        e = e'.below [.element before.length] := by
  cases body with
  | sequence items =>
    rw [elementsOf, elementItems_eq_error]
    simp only [Nat.zero_add]
    constructor
    · rintro ⟨before, item, after, e', rfl, hbefore, hitem⟩
      exact .inr ⟨before, item, after, e', rfl, hbefore, hitem⟩
    · rintro (⟨-, hne, -⟩ | ⟨before, item, after, e', hbody, hbefore, hitem⟩)
      · exact absurd rfl (hne items)
      · exact ⟨before, item, after, e', Yaml.sequence.inj hbody, hbefore, hitem⟩
  | _ => simp [elementsOf, eq_comm]

/-- The variants of an enum are refused for the first entry that declares none. -/
theorem variantsOf_eq_error : variantsOf body = .error e ↔
    ((∀ entries, body ≠ .mapping entries) ∧ e = .here (.enumBody body)) ∨
    (body = .mapping [] ∧ e = .here .noVariants) ∨
    ∃ before entry after, body = .mapping (before ++ entry :: after) ∧
      (∀ entry ∈ before, IsVariant entry) ∧
      ((entry.1.text? = none ∧ e = .here (.variantName entry.1)) ∨
        ∃ name e', entry.1.text? = some name ∧ payloadOf entry.2 (ofYaml entry.2) = .error e' ∧
          e = e'.below [.variant name]) := by
  cases body with
  | mapping entries =>
    cases entries with
    | nil => simp [variantsOf, eq_comm]
    | cons entry entries =>
      rw [variantsOf, variantEntries_eq_mapM, mapM_namedOf_eq_error]
      simp only [exists_payloadOf_eq_ok]
      constructor
      · rintro ⟨before, entry', after, hsplit, hbefore, hentry⟩
        exact .inr (.inr ⟨before, entry', after, congrArg _ hsplit, hbefore, hentry⟩)
      · rintro (⟨hne, -⟩ | ⟨hbody, -⟩ | ⟨before, entry', after, hbody, hbefore, hentry⟩)
        · exact absurd rfl (hne (entry :: entries))
        · cases hbody
        · exact ⟨before, entry', after, Yaml.mapping.inj hbody, hbefore, hentry⟩
  | _ => simp [variantsOf, eq_comm]

/-- The value under a key of the entries of a mapping describes the part. -/
theorem partAt_eq (name : String) : ∀ entries : List (Yaml × Yaml),
    partAt name entries = match (Yaml.mapping entries).get? name with
      | none => .error (.here (.missingPart name))
      | some part => ofYaml part
  | [] => by
    rw [partAt]
    rfl
  | (key, value) :: entries => by
    rw [partAt, Yaml.get?_mapping_cons, partAt_eq name entries]
    cases key.isText name <;> rfl

/-- A part of a map is what the value under its key describes. -/
theorem partOf_eq (name : String) : ∀ body : Yaml,
    partOf name body = match body.get? name with
      | none => .error (.here (.missingPart name))
      | some part => ofYaml part
  | .mapping entries => by
    rw [partOf, partAt_eq]
  | .tagged _ content => by
    rw [partOf, partOf_eq name content]
    rfl
  | .null | .bool _ | .number _ | .string _ | .sequence _ => by
    simp [partOf, Yaml.get?, Yaml.untagged]

theorem partOf_eq_ok {name : String} {type : TypeExpr} : partOf name body = .ok type ↔
    ∃ part, body.get? name = some part ∧ ofYaml part = .ok type := by
  rw [partOf_eq]
  cases body.get? name <;> simp

/-- The type under a key is refused if the key is not there, or the value describes none. -/
theorem partOf_eq_error {name : String} : partOf name body = .error e ↔
    (body.get? name = none ∧ e = .here (.missingPart name)) ∨
      ∃ part, body.get? name = some part ∧ ofYaml part = .error e := by
  rw [partOf_eq]
  cases body.get? name <;> simp [eq_comm]

/-! ### Composites -/

/-- The words of composites whose body holds fields. -/
def structWords : List String := ["struct", "struct_allowing_missing"]

/-- The words of composites whose body is one part. -/
def wrapperWords : List String := ["option", "array"]

/-- The words of all composites. -/
def compositeWords : List String := structWords ++ wrapperWords ++ ["tuple", "enum", "map"]

/-- The error for which the composite of a word is refused over its body. -/
inductive CompositeFails (body : Yaml) : String → TypeError → Prop
  | struct {word : String} {e : TypeError} (hword : word ∈ structWords)
      (hfields : fieldsOf body = .error e) : CompositeFails body word e
  | tuple {e : TypeError} (helements : elementsOf body = .error e) : CompositeFails body "tuple" e
  | enum {e : TypeError} (hvariants : variantsOf body = .error e) : CompositeFails body "enum" e
  | wrapped {word : String} {e : TypeError} (hword : word ∈ wrapperWords)
      (hpart : ofYaml body = .error e) : CompositeFails body word e
  | mapKey {e : TypeError} (hkey : partOf "key" body = .error e) : CompositeFails body "map" e
  | mapValue {key : TypeExpr} {e : TypeError} (hkey : partOf "key" body = .ok key)
      (hvalue : partOf "value" body = .error e) : CompositeFails body "map" e
  | unknown {word : String} (hword : word ∉ compositeWords) :
      CompositeFails body word (.here (.unknownComposite word))

/-- A composite is refused if it has not one key, if the key is no text, and else for its body. -/
theorem compositeOf_eq_error {entries : List (Yaml × Yaml)} : compositeOf entries = .error e ↔
    (entries.length ≠ 1 ∧ e = .here (.notSingle entries.length)) ∨
    ∃ key body, entries = [(key, body)] ∧ ((key.text? = none ∧ e = .here (.keyNotText key)) ∨
      ∃ word, key.text? = some word ∧ CompositeFails body word e) := by
  constructor
  · intro h
    unfold compositeOf at h
    split at h
    · next key body =>
      refine .inr ⟨key, body, rfl, ?_⟩
      split at h
      case h_1 hword => exact .inl ⟨hword, (Except.error.inj h).symm⟩
      -- In the other cases the key is a text, and the word decides.
      all_goals refine .inr ⟨_, ‹key.text? = some _›, ?_⟩
      case h_2 | h_3 =>
        exact .struct (by simp [structWords]) (bind_pure_eq_error.mp h)
      case h_4 => exact .tuple (bind_pure_eq_error.mp h)
      case h_5 => exact .enum (bind_pure_eq_error.mp h)
      case h_6 | h_7 =>
        exact .wrapped (by simp [wrapperWords]) (bind_pure_eq_error.mp h)
      case h_8 =>
        obtain hkey | ⟨k, hk, h⟩ := bind_eq_error.mp h
        · exact .mapKey hkey
        · exact .mapValue hk (bind_pure_eq_error.mp h)
      case h_9 =>
        obtain rfl := Except.error.inj h
        exact .unknown (by simp_all [compositeWords, structWords, wrapperWords])
    · next entries hne =>
      refine .inl ⟨fun hlength => ?_, (Except.error.inj h).symm⟩
      obtain ⟨⟨key, body⟩, rfl⟩ := List.length_eq_one_iff.mp hlength
      exact hne key body rfl
  · rintro (⟨hlength, rfl⟩ | ⟨key, body, rfl, ⟨hkey, rfl⟩ | ⟨word, hword, hfails⟩⟩)
    · rw [compositeOf]
      rintro key body rfl
      exact hlength rfl
    · simp only [compositeOf, hkey]
    · cases hfails with
      | struct hstruct hfields =>
        simp only [structWords, List.mem_cons, List.not_mem_nil, or_false] at hstruct
        obtain rfl | rfl := hstruct <;> simp only [compositeOf, hword, hfields, error_bind]
      | tuple h | enum h => simp only [compositeOf, hword, h, error_bind]
      | wrapped hwrapper hpart =>
        simp only [wrapperWords, List.mem_cons, List.not_mem_nil, or_false] at hwrapper
        obtain rfl | rfl := hwrapper <;> simp only [compositeOf, hword, hpart, error_bind]
      | mapKey hkey => simp only [compositeOf, hword, hkey, error_bind]
      | mapValue hkey hvalue => simp only [compositeOf, hword, hkey, hvalue, ok_bind, error_bind]
      | unknown hunknown =>
        simp only [compositeWords, structWords, wrapperWords, List.mem_append, List.mem_cons,
          List.not_mem_nil, or_false, not_or] at hunknown
        simp only [compositeOf, hword]
        split <;> simp_all

end TypeExpr

end SborSchema
