/-
# The first fault of a type expression

A type expression is refused for its first part that is at fault. Parts come in
the order of the document, except that the type of the keys of a map comes before
that of its values. The error names the cause below the fields, elements and
variants that lead to the part, from the outside in; an option, an array or a map
on the way leaves no trace.

Key definitions: `TypeExpr.ReadsNext`, `TypeExpr.Reads`, `TypeExpr.AtFault`.
Key theorems: `TypeExpr.ReadsNext.ofYaml_eq_error`, `TypeExpr.AtFault.ofYaml_eq_error`,
`TypeExpr.foundIn_of_error`, `TypeExpr.ofYaml_first_fault`.
-/
import SborSchema.Proofs.TypeExpr.Refusal

namespace SborSchema.TypeExpr

variable {e : TypeError} {body whole part : Yaml} {places : List TypePlace}

/-! ### Parts in the order of reading -/

/-- The value is the composite of a word over a body. -/
def Composed (word : String) (body whole : Yaml) : Prop :=
  ∃ key, whole = .mapping [(key, body)] ∧ key.text? = some word

theorem Composed.ofYaml_eq_error {word : String} (h : Composed word body whole) :
    ofYaml whole = .error e ↔ CompositeFails body word e := by
  obtain ⟨key, rfl, hkey⟩ := h
  rw [ofYaml, compositeOf_eq_error]
  constructor
  · rintro (⟨hlength, -⟩ | ⟨key', body', hentry, ⟨hnone, -⟩ | ⟨word', hword', hfails⟩⟩)
    · exact absurd rfl hlength
    · cases hentry
      cases hnone.symm.trans hkey
    · cases hentry
      obtain rfl := Option.some.inj (hword'.symm.trans hkey)
      exact hfails
  · exact fun hfails => .inr ⟨key, body, rfl, .inr ⟨word, hkey, hfails⟩⟩

/-- The part is the next one that is read of the whole, at the given places in it: what comes
before it there is in order. -/
inductive ReadsNext : Yaml → List TypePlace → Yaml → Prop
  /-- The type of a field comes after the fields before it, -/
  | field {whole key part : Yaml} {before after : List (Yaml × Yaml)} {word name : String}
      (hword : word ∈ structWords)
      (hwhole : Composed word (.mapping (before ++ (key, part) :: after)) whole)
      (hbefore : ∀ entry ∈ before, IsField entry) (hname : key.text? = some name) :
      ReadsNext whole [.field name] part
  /-- an element of a tuple after the elements before it, -/
  | element {whole part : Yaml} {before after : List Yaml}
      (hwhole : Composed "tuple" (.sequence (before ++ part :: after)) whole)
      (hbefore : ∀ item ∈ before, IsType item) :
      ReadsNext whole [.element before.length] part
  /-- and a payload, which is not null, after the variants before it. -/
  | payload {whole key part : Yaml} {before after : List (Yaml × Yaml)} {name : String}
      (hwhole : Composed "enum" (.mapping (before ++ (key, part) :: after)) whole)
      (hbefore : ∀ entry ∈ before, IsVariant entry) (hname : key.text? = some name)
      (hnull : part.isNull = false) : ReadsNext whole [.variant name] part
  /-- An option and an array are read as what they hold. -/
  | wrapped {whole part : Yaml} {word : String} (hword : word ∈ wrapperWords)
      (hwhole : Composed word part whole) : ReadsNext whole [] part
  /-- The keys of a map come first, wherever they stand, -/
  | mapKey {whole body part : Yaml} (hwhole : Composed "map" body whole)
      (hpart : body.get? "key" = some part) : ReadsNext whole [] part
  /-- and then the values. -/
  | mapValue {whole body key part : Yaml} (hwhole : Composed "map" body whole)
      (hkey : body.get? "key" = some key) (hvalid : IsType key)
      (hpart : body.get? "value" = some part) : ReadsNext whole [] part

/-- The part is reached from the whole by a chain of composites, at the given places in it, and
all that is read before the part is in order. -/
inductive Reads : Yaml → List TypePlace → Yaml → Prop
  | here {y : Yaml} : Reads y [] y
  | step {whole part inner : Yaml} {places places' : List TypePlace}
      (hnext : ReadsNext whole places part) (hrest : Reads part places' inner) :
      Reads whole (places ++ places') inner

/-- The value is at fault itself, not in a part of it, and what is read of it before the fault is
in order. -/
inductive AtFault : Yaml → TypeError → Prop
  /-- A name is no type. -/
  | unknownName {name : String} {fault : TypeFault} (h : ofName name = .error fault) :
      AtFault (.string name) (.here fault)
  /-- A value is neither a name nor a mapping. -/
  | notType {y : Yaml} (hname : ∀ name, y ≠ .string name)
      (hmapping : ∀ entries, y ≠ .mapping entries) : AtFault y (.here (.notType y))
  /-- A mapping has another number of keys than one, -/
  | notSingle {entries : List (Yaml × Yaml)} (h : entries.length ≠ 1) :
      AtFault (.mapping entries) (.here (.notSingle entries.length))
  /-- or its key is no text, -/
  | keyNotText {key body : Yaml} (h : key.text? = none) :
      AtFault (.mapping [(key, body)]) (.here (.keyNotText key))
  /-- or not the word of a composite. -/
  | unknownComposite {whole body : Yaml} {word : String} (hwhole : Composed word body whole)
      (hword : word ∉ compositeWords) : AtFault whole (.here (.unknownComposite word))
  /-- The body of a struct is no mapping, -/
  | structBody {whole body : Yaml} {word : String} (hword : word ∈ structWords)
      (hwhole : Composed word body whole) (hnull : body ≠ .null)
      (hbody : ∀ entries, body ≠ .mapping entries) : AtFault whole (.here (.structBody body))
  /-- or the name of a field is no text. -/
  | fieldName {whole : Yaml} {before after : List (Yaml × Yaml)} {entry : Yaml × Yaml}
      {word : String} (hword : word ∈ structWords)
      (hwhole : Composed word (.mapping (before ++ entry :: after)) whole)
      (hbefore : ∀ entry ∈ before, IsField entry) (hname : entry.1.text? = none) :
      AtFault whole (.here (.fieldName entry.1))
  /-- The body of a tuple is no sequence. -/
  | tupleBody {whole body : Yaml} (hwhole : Composed "tuple" body whole) (hnull : body ≠ .null)
      (hbody : ∀ items, body ≠ .sequence items) : AtFault whole (.here (.tupleBody body))
  /-- The body of an enum is no mapping, -/
  | enumBody {whole body : Yaml} (hwhole : Composed "enum" body whole)
      (hbody : ∀ entries, body ≠ .mapping entries) : AtFault whole (.here (.enumBody body))
  /-- or it is empty, -/
  | noVariants {whole : Yaml} (hwhole : Composed "enum" (.mapping []) whole) :
      AtFault whole (.here .noVariants)
  /-- or the name of a variant is no text, -/
  | variantName {whole : Yaml} {before after : List (Yaml × Yaml)} {entry : Yaml × Yaml}
      (hwhole : Composed "enum" (.mapping (before ++ entry :: after)) whole)
      (hbefore : ∀ entry ∈ before, IsVariant entry) (hname : entry.1.text? = none) :
      AtFault whole (.here (.variantName entry.1))
  /-- or a payload is a type that is no layout. -/
  | notLayout {whole : Yaml} {before after : List (Yaml × Yaml)} {entry : Yaml × Yaml}
      {name : String} {type : TypeExpr}
      (hwhole : Composed "enum" (.mapping (before ++ entry :: after)) whole)
      (hbefore : ∀ entry ∈ before, IsVariant entry) (hname : entry.1.text? = some name)
      (hnull : entry.2.isNull = false) (htype : ofYaml entry.2 = .ok type)
      (hlayout : ∀ L, type ≠ .layout L) : AtFault whole ⟨[.variant name], .notLayout type⟩
  /-- A map has no key type, -/
  | missingKey {whole body : Yaml} (hwhole : Composed "map" body whole)
      (hkey : body.get? "key" = none) : AtFault whole (.here (.missingPart "key"))
  /-- or no value type. -/
  | missingValue {whole body key : Yaml} (hwhole : Composed "map" body whole)
      (hkey : body.get? "key" = some key) (hvalid : IsType key)
      (hvalue : body.get? "value" = none) : AtFault whole (.here (.missingPart "value"))

/-- A refused part makes the whole refused, below the places of the part. -/
theorem ReadsNext.ofYaml_eq_error (hnext : ReadsNext whole places part)
    (hpart : ofYaml part = .error e) : ofYaml whole = .error (e.below places) := by
  cases hnext with
  | field hword hwhole hbefore hname =>
    refine hwhole.ofYaml_eq_error.mpr (.struct hword (fieldsOf_eq_error.mpr (.inr ?_)))
    exact ⟨_, _, _, rfl, hbefore, .inr ⟨_, e, hname, hpart, rfl⟩⟩
  | element hwhole hbefore =>
    refine hwhole.ofYaml_eq_error.mpr (.tuple (elementsOf_eq_error.mpr (.inr ?_)))
    exact ⟨_, part, _, e, rfl, hbefore, hpart, rfl⟩
  | payload hwhole hbefore hname hnull =>
    have hpayload := payloadOf_eq_error.mpr ⟨hnull, .inl hpart⟩
    refine hwhole.ofYaml_eq_error.mpr (.enum (variantsOf_eq_error.mpr (.inr (.inr ?_))))
    exact ⟨_, _, _, rfl, hbefore, .inr ⟨_, e, hname, hpayload, rfl⟩⟩
  | wrapped hword hwhole => exact hwhole.ofYaml_eq_error.mpr (.wrapped hword hpart)
  | mapKey hwhole hkey =>
    exact hwhole.ofYaml_eq_error.mpr (.mapKey (partOf_eq_error.mpr (.inr ⟨part, hkey, hpart⟩)))
  | mapValue hwhole hkey hvalid hvalue =>
    obtain ⟨type, htype⟩ := hvalid
    exact hwhole.ofYaml_eq_error.mpr (.mapValue (partOf_eq_ok.mpr ⟨_, hkey, htype⟩)
      (partOf_eq_error.mpr (.inr ⟨part, hvalue, hpart⟩)))

/-- A value at fault is refused with its error. -/
theorem AtFault.ofYaml_eq_error (h : AtFault whole e) : ofYaml whole = .error e := by
  cases h with
  | unknownName h => rw [ofYaml, h]; rfl
  | notType hname hmapping =>
    cases whole with
    | string name => exact absurd rfl (hname name)
    | mapping entries => exact absurd rfl (hmapping entries)
    | null | bool | number | sequence | tagged => rw [ofYaml] <;> nofun
  | notSingle h =>
    rw [ofYaml]
    exact compositeOf_eq_error.mpr (.inl ⟨h, rfl⟩)
  | keyNotText h =>
    rw [ofYaml]
    exact compositeOf_eq_error.mpr (.inr ⟨_, _, rfl, .inl ⟨h, rfl⟩⟩)
  | unknownComposite hwhole hword => exact hwhole.ofYaml_eq_error.mpr (.unknown hword)
  | structBody hword hwhole hnull hbody =>
    exact hwhole.ofYaml_eq_error.mpr
      (.struct hword (fieldsOf_eq_error.mpr (.inl ⟨hnull, hbody, rfl⟩)))
  | fieldName hword hwhole hbefore hname =>
    refine hwhole.ofYaml_eq_error.mpr (.struct hword (fieldsOf_eq_error.mpr (.inr ?_)))
    exact ⟨_, _, _, rfl, hbefore, .inl ⟨hname, rfl⟩⟩
  | tupleBody hwhole hnull hbody =>
    exact hwhole.ofYaml_eq_error.mpr (.tuple (elementsOf_eq_error.mpr (.inl ⟨hnull, hbody, rfl⟩)))
  | enumBody hwhole hbody =>
    exact hwhole.ofYaml_eq_error.mpr (.enum (variantsOf_eq_error.mpr (.inl ⟨hbody, rfl⟩)))
  | noVariants hwhole =>
    exact hwhole.ofYaml_eq_error.mpr (.enum (variantsOf_eq_error.mpr (.inr (.inl ⟨rfl, rfl⟩))))
  | variantName hwhole hbefore hname =>
    refine hwhole.ofYaml_eq_error.mpr (.enum (variantsOf_eq_error.mpr (.inr (.inr ?_))))
    exact ⟨_, _, _, rfl, hbefore, .inl ⟨hname, rfl⟩⟩
  | notLayout hwhole hbefore hname hnull htype hlayout =>
    have hpayload := payloadOf_eq_error.mpr ⟨hnull, .inr ⟨_, htype, hlayout, rfl⟩⟩
    refine hwhole.ofYaml_eq_error.mpr (.enum (variantsOf_eq_error.mpr (.inr (.inr ?_))))
    exact ⟨_, _, _, rfl, hbefore, .inr ⟨_, _, hname, hpayload, rfl⟩⟩
  | missingKey hwhole hkey =>
    exact hwhole.ofYaml_eq_error.mpr (.mapKey (partOf_eq_error.mpr (.inl ⟨hkey, rfl⟩)))
  | missingValue hwhole hkey hvalid hvalue =>
    obtain ⟨type, htype⟩ := hvalid
    exact hwhole.ofYaml_eq_error.mpr (.mapValue (partOf_eq_ok.mpr ⟨_, hkey, htype⟩)
      (partOf_eq_error.mpr (.inl ⟨hvalue, rfl⟩)))

/-- The error is that of the value itself, or that of its next part below the places of it. -/
def FoundIn (whole : Yaml) (e : TypeError) : Prop :=
  AtFault whole e ∨ ∃ places part e', ReadsNext whole places part ∧ ofYaml part = .error e' ∧
    e = e'.below places

theorem CompositeFails.foundIn {word : String} (hwhole : Composed word body whole)
    (h : CompositeFails body word e) : FoundIn whole e := by
  cases h with
  | struct hword hfields =>
    obtain ⟨hnull, hbody, rfl⟩ | ⟨before, entry, after, rfl, hbefore, hentry⟩ :=
      fieldsOf_eq_error.mp hfields
    · exact .inl (.structBody hword hwhole hnull hbody)
    · obtain ⟨hname, rfl⟩ | ⟨name, e', hname, hpart, rfl⟩ := hentry
      · exact .inl (.fieldName hword hwhole hbefore hname)
      · exact .inr ⟨_, _, e', .field hword hwhole hbefore hname, hpart, rfl⟩
  | tuple helements =>
    obtain ⟨hnull, hbody, rfl⟩ | ⟨before, item, after, e', rfl, hbefore, hpart, rfl⟩ :=
      elementsOf_eq_error.mp helements
    · exact .inl (.tupleBody hwhole hnull hbody)
    · exact .inr ⟨_, _, e', .element hwhole hbefore, hpart, rfl⟩
  | enum hvariants =>
    obtain ⟨hbody, rfl⟩ | ⟨rfl, rfl⟩ | ⟨before, entry, after, rfl, hbefore, hentry⟩ :=
      variantsOf_eq_error.mp hvariants
    · exact .inl (.enumBody hwhole hbody)
    · exact .inl (.noVariants hwhole)
    · obtain ⟨hname, rfl⟩ | ⟨name, e', hname, hpayload, rfl⟩ := hentry
      · exact .inl (.variantName hwhole hbefore hname)
      · obtain ⟨hnull, hpart | ⟨type, htype, hlayout, rfl⟩⟩ := payloadOf_eq_error.mp hpayload
        · exact .inr ⟨_, _, e', .payload hwhole hbefore hname hnull, hpart, rfl⟩
        · exact .inl (.notLayout hwhole hbefore hname hnull htype hlayout)
  | wrapped hword hpart => exact .inr ⟨[], body, e, .wrapped hword hwhole, hpart, rfl⟩
  | mapKey hkey =>
    obtain ⟨hnone, rfl⟩ | ⟨key, hget, hpart⟩ := partOf_eq_error.mp hkey
    · exact .inl (.missingKey hwhole hnone)
    · exact .inr ⟨[], key, e, .mapKey hwhole hget, hpart, rfl⟩
  | mapValue hkey hvalue =>
    obtain ⟨key, hget, hvalid⟩ := partOf_eq_ok.mp hkey
    obtain ⟨hnone, rfl⟩ | ⟨value, hget', hpart⟩ := partOf_eq_error.mp hvalue
    · exact .inl (.missingValue hwhole hget ⟨_, hvalid⟩ hnone)
    · exact .inr ⟨[], value, e, .mapValue hwhole hget ⟨_, hvalid⟩ hget', hpart, rfl⟩
  | unknown hword => exact .inl (.unknownComposite hwhole hword)

/-- A refused value is at fault itself, or the next part of it that is read is refused. -/
theorem foundIn_of_error (h : ofYaml whole = .error e) : FoundIn whole e := by
  cases whole with
  | string name =>
    rw [ofYaml] at h
    obtain ⟨fault, hfault, rfl⟩ := mapError_eq_error.mp h
    exact .inl (.unknownName hfault)
  | mapping entries =>
    rw [ofYaml] at h
    obtain ⟨hlength, rfl⟩ | ⟨key, body, rfl, ⟨hkey, rfl⟩ | ⟨word, hword, hfails⟩⟩ :=
      compositeOf_eq_error.mp h
    · exact .inl (.notSingle hlength)
    · exact .inl (.keyNotText hkey)
    · exact hfails.foundIn ⟨key, rfl, hword⟩
  | null | bool | number | sequence | tagged =>
    rw [ofYaml] at h
    · obtain rfl := Except.error.inj h
      exact .inl (.notType nofun nofun)
    all_goals nofun

/-! ### The way to the first fault -/

theorem Composed.sizeOf_lt {word : String} (h : Composed word body whole) :
    sizeOf body < sizeOf whole := by
  obtain ⟨key, rfl, -⟩ := h
  simp only [Yaml.mapping.sizeOf_spec, List.cons.sizeOf_spec, Prod.mk.sizeOf_spec]
  omega

theorem Composed.sizeOf_entry_lt {word : String} {key : Yaml} {before after : List (Yaml × Yaml)}
    (h : Composed word (.mapping (before ++ (key, part) :: after)) whole) :
    sizeOf part < sizeOf whole := by
  have hentry : sizeOf (key, part) < sizeOf (before ++ (key, part) :: after) :=
    List.sizeOf_lt_of_mem List.mem_append_cons_self
  have hbody := h.sizeOf_lt
  simp only [Yaml.mapping.sizeOf_spec, Prod.mk.sizeOf_spec] at hentry hbody
  omega

theorem Composed.sizeOf_item_lt {word : String} {before after : List Yaml}
    (h : Composed word (.sequence (before ++ part :: after)) whole) :
    sizeOf part < sizeOf whole := by
  have hitem : sizeOf part < sizeOf (before ++ part :: after) :=
    List.sizeOf_lt_of_mem List.mem_append_cons_self
  have hbody := h.sizeOf_lt
  simp only [Yaml.sequence.sizeOf_spec] at hbody
  omega

/-- The next part is smaller than the whole. -/
theorem ReadsNext.sizeOf_lt (h : ReadsNext whole places part) : sizeOf part < sizeOf whole := by
  cases h with
  | field _ hwhole | payload hwhole => exact hwhole.sizeOf_entry_lt
  | element hwhole => exact hwhole.sizeOf_item_lt
  | wrapped _ hwhole => exact hwhole.sizeOf_lt
  | mapKey hwhole hpart | mapValue hwhole _ _ hpart =>
    exact (Yaml.sizeOf_lt_of_get? hpart).trans hwhole.sizeOf_lt

/-- A refused part makes the whole refused along a chain of composites. -/
theorem Reads.ofYaml_eq_error (h : Reads whole places part) (hpart : ofYaml part = .error e) :
    ofYaml whole = .error (e.below places) := by
  induction h with
  | here => exact hpart
  | step hnext _ ih =>
    rw [TypeError.below_append]
    exact hnext.ofYaml_eq_error (ih hpart)

/-- A refused value leads to a part that is at fault itself. -/
theorem exists_reads_atFault (whole : Yaml) (e : TypeError) (h : ofYaml whole = .error e) :
    ∃ places part own, Reads whole places part ∧ AtFault part own ∧ e = own.below places := by
  obtain hfault | ⟨places, part, e', hnext, hpart, rfl⟩ := foundIn_of_error h
  · exact ⟨[], whole, e, .here, hfault, rfl⟩
  · have := hnext.sizeOf_lt
    obtain ⟨places', inner, own, hreads, hfault, rfl⟩ := exists_reads_atFault part e' hpart
    exact ⟨places ++ places', inner, own, .step hnext hreads, hfault,
      (own.below_append places places').symm⟩
termination_by sizeOf whole

/-- An enum is accepted if its entries are variants, units among them. -/
theorem Composed.isType_enum {entries : List (Yaml × Yaml)}
    (hwhole : Composed "enum" (.mapping entries) whole) (hne : entries ≠ [])
    (hentries : ∀ entry ∈ entries, IsVariant entry) : IsType whole := by
  have hread : ∀ entry ∈ entries, ∃ v : String × Option Layout,
      entry.1.text? = some v.1 ∧ payloadOf entry.2 (ofYaml entry.2) = .ok v.2 := by
    intro entry hentry
    obtain ⟨⟨name, hname⟩, hvalid⟩ := hentries entry hentry
    obtain ⟨payload, hpayload⟩ := exists_payloadOf_eq_ok.mpr hvalid
    exact ⟨(name, payload), hname, hpayload⟩
  obtain ⟨variants, hvariants⟩ := exists_forall₂ hread
  have hbody : variantsOf (.mapping entries) = .ok variants := by
    cases entries with
    | nil => exact absurd rfl hne
    | cons entry entries =>
      rw [variantsOf]
      exact variantEntries_eq_ok.mpr hvariants
  obtain ⟨key, rfl, hkey⟩ := hwhole
  refine ⟨enum variants, ?_⟩
  rw [ofYaml]
  exact compositeOf_eq_ok.mpr ⟨key, _, "enum", rfl, hkey, .enum hbody⟩

/-- **A type expression is refused for its first fault.** A refused part that a chain of
composites leads to, where all that is read before it is in order, makes the whole refused, with
the wording of the part behind the places on the way from the outside in; options, arrays and
maps have none. An enum is not refused for null payloads. And whatever is refused is
refused for such a part that is at fault itself. -/
theorem ofYaml_first_fault :
    (∀ whole places part e, Reads whole places part → ofYaml part = .error e →
      ∃ e', ofYaml whole = .error e' ∧ e'.message = TypeError.lead places ++ e.message) ∧
    (∀ whole e, ofYaml whole = .error e ↔
      ∃ places part own, Reads whole places part ∧ AtFault part own ∧ e = own.below places) ∧
    (∀ whole entries, Composed "enum" (.mapping entries) whole → entries ≠ [] →
      (∀ entry ∈ entries, IsVariant entry) → IsType whole) ∧
    TypeError.lead [] = "" ∧
    ∀ places : List TypePlace,
      (∀ name, TypeError.lead (.field name :: places) =
        "field '" ++ name ++ "': " ++ TypeError.lead places) ∧
      (∀ i, TypeError.lead (.element i :: places) =
        "element " ++ Digits.text i ++ ": " ++ TypeError.lead places) ∧
      ∀ name, TypeError.lead (.variant name :: places) =
        "variant '" ++ name ++ "': " ++ TypeError.lead places := by
  refine ⟨fun whole places part e hreads hpart => ?_, fun whole e => ⟨?_, ?_⟩,
    fun whole entries hwhole hne hentries => hwhole.isType_enum hne hentries, rfl,
    fun places => ⟨fun name => TypeError.lead_field name places,
      fun i => TypeError.lead_element i places, fun name => TypeError.lead_variant name places⟩⟩
  · exact ⟨e.below places, hreads.ofYaml_eq_error hpart, e.message_below places⟩
  · exact exists_reads_atFault whole e
  · rintro ⟨places, part, own, hreads, hfault, rfl⟩
    exact hreads.ofYaml_eq_error hfault.ofYaml_eq_error

/-- A variant without payload, and one whose payload holds a map of which both parts are at
fault, the value written first. -/
theorem ofYaml_first_fault_map :
    let map := Yaml.mapping [(.string "map", .mapping
      [(.string "value", .string "strng"), (.string "key", .string "strnk")])]
    let pair := Yaml.mapping [(.string "tuple", .sequence [.string "bool", map])]
    let whole := Yaml.mapping [(.string "enum", .mapping
      [(.string "None", .null), (.string "Pair", pair)])]
    ∃ e, ofYaml whole = .error e ∧
      e.message = "variant 'Pair': element 1: unknown type: 'strnk'" := by
  intro map pair whole
  have hfault : ofYaml (.string "strnk") = .error (.here (.unknownName "strnk")) := by
    have htrim : Text.trim "strnk".toList = "strnk".toList := by decide
    have hname : ofName "strnk" = .error (.unknownName "strnk") := by
      rw [ofName, ofNameChars_other (by decide) (by decide), htrim]
      rfl
    rw [ofYaml, hname]
    rfl
  have hbool : IsType (.string "bool") := by
    refine ⟨.leaf .bool, ?_⟩
    rw [ofYaml]
    exact congrArg (Except.mapError TypeError.here) (ofName_name .bool)
  have hpair : Composed "enum"
      (.mapping ([(.string "None", .null)] ++ [(.string "Pair", pair)])) whole := ⟨_, rfl, rfl⟩
  have hmap : Composed "tuple" (.sequence ([.string "bool"] ++ [map])) pair := ⟨_, rfl, rfl⟩
  have hnone : IsVariant (.string "None", .null) := ⟨⟨"None", rfl⟩, .inl rfl⟩
  have hreads : Reads whole [.variant "Pair", .element 1] (.string "strnk") :=
    .step (.payload hpair (List.forall_mem_singleton.mpr hnone) rfl rfl)
      (.step (.element hmap (List.forall_mem_singleton.mpr hbool))
        (.step (.mapKey ⟨_, rfl, rfl⟩ rfl) .here))
  obtain ⟨e, he, hmessage⟩ := ofYaml_first_fault.1 whole _ _ _ hreads hfault
  refine ⟨e, he, hmessage.trans ?_⟩
  decide

end SborSchema.TypeExpr
