/-
# A type tells its values apart as JSON

JSON values carry no tags, so what tells two values apart is the type both were
parsed with. It gives the parts of the two values the same places; only an
option can be null, and an option of an option is put into an array, so the
depth at which it is absent is kept. Through all types, two values that a type
parses are the same as JSON if and only if they are alike
(`run_toJson_eq_iff`), in the written order of the members and in name order.

Key definitions: `Value.ToldApart`, `TypeExpr.Faithful`, `Layout.Faithful`.
Key theorems: `TypeExpr.eq_absent_of_null`, `TypeExpr.faithful_hereditary`,
`run_toJson_eq_iff`.
-/
import SborSchema.Proofs.Instant
import SborSchema.Proofs.Tree.Json
import SborSchema.Proofs.TypeExpr.Shape
import SborSchema.Proofs.Value.Alike

namespace SborSchema

variable {g : Json → Json}

/-! ### Records, items and entries as JSON -/

namespace Value

theorem jsonFields_eq_map : ∀ fields : List (String × Value),
    jsonFields fields = fields.map fun f => (f.1, f.2.toJson)
  | [] => rfl
  | (_, _) :: rest => by rw [jsonFields, jsonFields_eq_map rest, List.map_cons]

theorem jsonItems_eq_map : ∀ items : List Value, jsonItems items = items.map toJson
  | [] => rfl
  | _ :: rest => by rw [jsonItems, jsonItems_eq_map rest, List.map_cons]

theorem jsonEntries_eq_map : ∀ entries : List (Value × Value),
    jsonEntries entries = entries.map fun e => .array [e.1.toJson, e.2.toJson]
  | [] => rfl
  | (_, _) :: rest => by rw [jsonEntries, jsonEntries_eq_map rest, List.map_cons]

theorem toJson_enum (variant : String) (payload : Option Value) :
    (enum variant payload).toJson = .object
      (("variant", .string variant) :: (payload.map fun v => ("value", v.toJson)).toList) := by
  cases payload <;> rw [toJson] <;> rfl

/-- An integer as JSON has no parts to arrange. -/
theorem arranged_integer (hg : Json.Arranges g) (x : Integer) : g x.toJson = x.toJson := by
  rw [Integer.toJson_eq]
  split
  · exact hg.number _
  · exact hg.string _

/-- What is neither missing nor an option is not null. -/
theorem arranged_ne_null (hg : Json.Arranges g) {v : Value} (hmissing : v ≠ .missing)
    (hoption : v.isOption = false) : g v.toJson ≠ .null := by
  cases v with
  | missing => exact absurd rfl hmissing
  | option => cases hoption
  | integer x =>
    rw [toJson, arranged_integer hg, Integer.toJson_eq]
    split <;> nofun
  | raw tree =>
    rw [toJson]
    cases tree <;> rw [Tree.toJson] <;> exact hg.object_ne_null _
  | record fields =>
    rw [toJson]
    exact hg.object_ne_null _
  | enum variant payload =>
    rw [toJson_enum]
    exact hg.object_ne_null _
  | _ => simp only [toJson, hg.bool, hg.string, hg.array, ne_eq, reduceCtorEq, not_false_eq_true]

/-- As fields of one name, the values are the same as JSON only if they are alike. -/
def ToldApart (g : Json → Json) (v w : Value) : Prop :=
  g v.toJson = g w.toJson → ∀ name, AlikeField (name, v) (name, w)

/-- Records of which corresponding fields are told apart are alike if they are the same as
JSON. -/
theorem alike_of_record_eq (hg : Json.Arranges g) {fs gs : List (String × Value)}
    (hpairs : List.Forall₂ (fun f f' => f'.1 = f.1 ∧ ToldApart g f.2 f'.2) fs gs)
    (h : g (recordOf fs).toJson = g (recordOf gs).toJson) : (recordOf fs).Alike (recordOf gs) := by
  obtain ⟨fs, gs, hfs, hgs, hnodup, hpairs⟩ := exists_recordOf hpairs
  rw [hfs, hgs] at h ⊢
  have hnodup' : (gs.map (·.1)).Nodup := (forall₂_named_iff.mp hpairs).1 ▸ hnodup
  have hnames : ∀ fields : List (String × Value), (fields.map (·.1)).Nodup →
      ((fields.map fun f => (f.1, f.2.toJson)).map (·.1)).Nodup := by
    intro fields hfields
    rwa [List.map_map]
  simp only [toJson, jsonFields_eq_map] at h
  refine .record (List.forall₂_iff_zip.mpr ⟨hpairs.length_eq, ?_⟩)
  rintro ⟨name, v⟩ ⟨name', w⟩ hvw
  obtain ⟨rfl, htold⟩ := List.forall₂_zip hpairs hvw
  obtain ⟨hv, hw⟩ := List.of_mem_zip hvw
  have hvalue := hg.get?_eq (hnames fs hnodup) (hnames gs hnodup') h name'
  rw [NameOrder.get?_of_mem (hnames fs hnodup) (List.mem_map_of_mem hv),
    NameOrder.get?_of_mem (hnames gs hnodup') (List.mem_map_of_mem hw)] at hvalue
  exact htold (Option.some.inj hvalue) name'

/-- Items that are the same as JSON are so one by one. -/
theorem map_eq_of_items_eq (hg : Json.Arranges g) {vs ws : List Value}
    (h : g (.array (jsonItems vs)) = g (.array (jsonItems ws))) :
    vs.map (fun v => g v.toJson) = ws.map fun w => g w.toJson := by
  rw [hg.array, hg.array, jsonItems_eq_map, jsonItems_eq_map, List.map_map, List.map_map] at h
  exact Json.array.inj h

/-- Choices that are the same as JSON are of one variant, with payloads that are the same. -/
theorem of_enum_eq (hg : Json.Arranges g) {variant variant' : String} {v w : Option Value}
    (h : g (enum variant v).toJson = g (enum variant' w).toJson) :
    variant = variant' ∧ v.map (fun v => g v.toJson) = w.map fun w => g w.toJson := by
  rw [toJson_enum, toJson_enum] at h
  have hlookup := hg.get?_eq (by cases v <;> simp) (by cases w <;> simp) h
  constructor
  · have hvariant : some (g (.string variant)) = some (g (.string variant')) := hlookup "variant"
    rw [hg.string, hg.string] at hvariant
    exact Json.string.inj (Option.some.inj hvariant)
  · have hvalue := hlookup "value"
    cases v <;> cases w <;> exact hvalue

end Value

/-! ### What is null -/

namespace TypeExpr

/-- Whether the type is an option. -/
def isOption : TypeExpr → Bool
  | option _ => true
  | _ => false

/-- What a type gives is not missing, and is an option exactly if the type is. -/
theorem head_of_yields {type : TypeExpr} {v : Value} (hv : type.schema.Yields v) :
    v ≠ .missing ∧ v.isOption = type.isOption := by
  obtain ⟨t, p, h⟩ := hv.exists_parse
  cases type with
  | leaf l =>
    simp only [schema] at h
    cases l <;> (obtain ⟨a, -, rfl⟩ := Schema.map_parse_eq_ok.mp h; exact ⟨by rintro ⟨⟩, rfl⟩)
  | layout L =>
    simp only [schema, L.parse_eq] at h
    obtain ⟨children, -, h⟩ := bind_eq_ok.mp h
    rcases L with ⟨_ | _, fields⟩ | elements <;> simp only [Layout.payload] at h <;>
      (obtain ⟨a, -, rfl⟩ := map_eq_ok.mp h; exact ⟨by rintro ⟨⟩, rfl⟩)
  | enum | option | map | array =>
    simp only [schema] at h
    obtain ⟨a, -, rfl⟩ := map_eq_ok.mp h
    exact ⟨by rintro ⟨⟩, rfl⟩

/-- What an option gives is absent, or is what its inner type gives. -/
theorem option_of_yields {inner : TypeExpr} {v : Value} (hv : (option inner).schema.Yields v) :
    v = .option none ∨ ∃ w, v = .option (some w) ∧ inner.schema.Yields w := by
  obtain ⟨t, p, h⟩ := hv.exists_parse
  simp only [schema] at h
  obtain ⟨value, hparse, rfl⟩ := map_eq_ok.mp h
  cases value with
  | none => exact .inl rfl
  | some w => exact .inr ⟨w, rfl, Schema.option_yields hparse⟩

/-- **Only the absent option is null.** -/
theorem eq_absent_of_null (hg : Json.Arranges g) {type : TypeExpr} {v : Value}
    (hv : type.schema.Yields v) (h : g v.toJson = .null) : v = .option none := by
  cases type with
  | option inner =>
    rcases option_of_yields hv with rfl | ⟨w, rfl, hw⟩
    · rfl
    · rw [Value.toJson] at h
      split at h
      · rw [hg.array] at h
        cases h
      · next hoption =>
        exact absurd h (Value.arranged_ne_null hg (head_of_yields hw).1 (by simpa using hoption))
  | leaf | layout | enum | map | array =>
    obtain ⟨hmissing, hoption⟩ := head_of_yields hv
    exact absurd h (Value.arranged_ne_null hg hmissing hoption)

end TypeExpr

/-! ### Every type tells its values apart -/

/-- Values that the type gives and that are the same as JSON are alike. -/
def TypeExpr.Faithful (g : Json → Json) (type : TypeExpr) : Prop :=
  ∀ v w, type.schema.Yields v → type.schema.Yields w → g v.toJson = g w.toJson → v.Alike w

/-- Values that the layout gives and that are the same as JSON are alike. -/
def Layout.Faithful (g : Json → Json) (L : Layout) : Prop :=
  ∀ v w, L.payload.YieldsFields v → L.payload.YieldsFields w → g v.toJson = g w.toJson → v.Alike w

theorem LeafType.faithful (hg : Json.Arranges g) (l : LeafType) :
    (TypeExpr.leaf l).Faithful g := by
  intro v w hv hw h
  obtain ⟨t, p, hv⟩ := hv.exists_parse
  obtain ⟨u, q, hw⟩ := hw.exists_parse
  simp only [TypeExpr.schema] at hv hw
  cases l with
  | number =>
    obtain ⟨x, -, rfl⟩ := Schema.map_parse_eq_ok.mp hv
    obtain ⟨y, -, rfl⟩ := Schema.map_parse_eq_ok.mp hw
    simp only [Value.toJson, Value.arranged_integer hg] at h
    exact .integer (Integer.toJson_eq_iff.mp h)
  | instant =>
    obtain ⟨x, -, rfl⟩ := Schema.map_parse_eq_ok.mp hv
    obtain ⟨y, -, rfl⟩ := Schema.map_parse_eq_ok.mp hw
    simp only [Value.toJson, hg.string, Json.string.injEq] at h
    rw [Instant.shortText_injective h]
    exact .refl _
  | value =>
    obtain ⟨x, -, rfl⟩ := Schema.map_parse_eq_ok.mp hv
    obtain ⟨y, -, rfl⟩ := Schema.map_parse_eq_ok.mp hw
    simp only [Value.toJson] at h
    rw [Tree.arranged_injective hg h]
    exact .refl _
  | _ =>
    obtain ⟨x, -, rfl⟩ := Schema.map_parse_eq_ok.mp hv
    obtain ⟨y, -, rfl⟩ := Schema.map_parse_eq_ok.mp hw
    simp only [Value.toJson, hg.bool, hg.string, Json.bool.injEq, Json.string.injEq] at h
    rw [h]
    exact .refl _

namespace Layout

theorem faithful_struct (hg : Json.Arranges g) (allowMissing : Bool)
    (fields : List (String × TypeExpr)) (hfields : ∀ f ∈ fields, f.2.Faithful g) :
    (struct allowMissing fields).Faithful g := by
  rintro v w ⟨children, p, hv⟩ ⟨children', q, hw⟩ h
  cases allowMissing with
  | false =>
    simp only [payload, fieldSchemas_eq_map] at hv hw
    obtain ⟨fs, hfs, rfl⟩ := map_eq_ok.mp hv
    obtain ⟨gs, hgs, rfl⟩ := map_eq_ok.mp hw
    have hfs := List.forall₂_map_left_iff.mp (Payload.struct_yields hfs)
    have hgs := List.forall₂_map_left_iff.mp (Payload.struct_yields hgs)
    refine Value.alike_of_record_eq hg (forall₂_of_common (fun f hf a b ha hb => ?_) hfs hgs) h
    exact ⟨hb.1.trans ha.1.symm, fun heq _ => .alike (hfields f hf a.2 b.2 ha.2 hb.2 heq)⟩
  | true =>
    simp only [payload, fieldSchemas_eq_map] at hv hw
    obtain ⟨fs, hfs, rfl⟩ := map_eq_ok.mp hv
    obtain ⟨gs, hgs, rfl⟩ := map_eq_ok.mp hw
    have hfs := List.forall₂_map_left_iff.mp (Payload.lenientStruct_yields hfs)
    have hgs := List.forall₂_map_left_iff.mp (Payload.lenientStruct_yields hgs)
    refine Value.alike_of_record_eq hg (List.forall₂_map_left_iff.mpr
      (List.forall₂_map_right_iff.mpr (forall₂_of_common (fun f hf a b ha hb => ?_) hfs hgs))) h
    refine ⟨hb.1.trans ha.1.symm, fun heq name => ?_⟩
    -- A field that only one side has faces a null, and only the absent option is null.
    obtain ⟨_, _ | v⟩ := a <;> obtain ⟨_, _ | w⟩ := b
    · exact .alike (.refl _)
    · have hnull : g w.toJson = .null := by
        rw [← hg.null]
        exact heq.symm
      obtain rfl := TypeExpr.eq_absent_of_null hg (hb.2 w rfl) hnull
      exact .missingLeft
    · have hnull : g v.toJson = .null := by
        rw [← hg.null]
        exact heq
      obtain rfl := TypeExpr.eq_absent_of_null hg (ha.2 v rfl) hnull
      exact .missingRight
    · exact .alike (hfields f hf v w (ha.2 v rfl) (hb.2 w rfl) heq)

theorem faithful_tuple (hg : Json.Arranges g) (types : List TypeExpr)
    (htypes : ∀ type ∈ types, type.Faithful g) : (tuple types).Faithful g := by
  rintro v w ⟨children, p, hv⟩ ⟨children', q, hw⟩ h
  simp only [payload, elementSchemas_eq_map] at hv hw
  obtain ⟨vs, hvs, rfl⟩ := map_eq_ok.mp hv
  obtain ⟨ws, hws, rfl⟩ := map_eq_ok.mp hw
  have hpairs : List.Forall₂ (fun v w => g v.toJson = g w.toJson → v.Alike w) vs ws :=
    forall₂_of_common (fun type htype v w hv hw => htypes type htype v w hv hw)
      (List.forall₂_map_left_iff.mp (Payload.tuple_yields hvs))
      (List.forall₂_map_left_iff.mp (Payload.tuple_yields hws))
  simp only [Value.toJson] at h
  exact .tuple (forall₂_of_map_eq (Value.map_eq_of_items_eq hg h)
    fun v w hvw => List.forall₂_zip hpairs hvw)

end Layout

namespace TypeExpr

theorem faithful_layout (L : Layout) (hL : L.Faithful g) : (layout L).Faithful g := by
  intro v w hv hw h
  obtain ⟨t, p, hv⟩ := hv.exists_parse
  obtain ⟨u, q, hw⟩ := hw.exists_parse
  simp only [schema, L.parse_eq] at hv hw
  obtain ⟨children, -, hv⟩ := bind_eq_ok.mp hv
  obtain ⟨children', -, hw⟩ := bind_eq_ok.mp hw
  exact hL v w ⟨children, p, hv⟩ ⟨children', q, hw⟩ h

theorem faithful_enum (hg : Json.Arranges g) (variants : List (String × Option Layout))
    (hvariants : ∀ v ∈ variants, ∀ L, v.2 = some L → L.Faithful g) :
    (enum variants).Faithful g := by
  intro v w hv hw h
  obtain ⟨t, p, hv⟩ := hv.exists_parse
  obtain ⟨u, q, hw⟩ := hw.exists_parse
  simp only [schema, variantSchemas_eq] at hv hw
  obtain ⟨⟨name, a⟩, hc, rfl⟩ := map_eq_ok.mp hv
  obtain ⟨⟨name', b⟩, hd, rfl⟩ := map_eq_ok.mp hw
  obtain ⟨rfl, hpayload⟩ := Value.of_enum_eq hg h
  obtain ⟨x, hx, -, hxvalue⟩ := Schema.enum_yields_first hc
  obtain ⟨y, hy, -, hyvalue⟩ := Schema.enum_yields_first hd
  -- Both outputs name the same variant, so both payloads were read by the first one declared.
  rw [find?_variantsBy] at hx hy
  obtain rfl : x = y := Option.some.inj (hx.symm.trans hy)
  obtain ⟨⟨_, layout⟩, hdeclared, rfl⟩ := Option.map_eq_some_iff.mp hx
  have hmem := List.mem_of_find?_eq_some hdeclared
  rcases hxvalue with ⟨hunit, rfl⟩ | ⟨payload, a, hL, rfl, ha⟩
  · cases b with
    | none => exact .refl _
    | some b => cases hpayload
  · obtain ⟨L, rfl, rfl⟩ := Option.map_eq_some_iff.mp hL
    rcases hyvalue with ⟨hunit, rfl⟩ | ⟨_, b, hL', rfl, hb⟩
    · cases hpayload
    · obtain rfl := Option.some.inj hL'
      exact .enum (hvariants _ hmem L rfl a b ha hb (Option.some.inj hpayload))

theorem faithful_option (hg : Json.Arranges g) (inner : TypeExpr) (hinner : inner.Faithful g) :
    (option inner).Faithful g := by
  intro v w hv hw h
  rcases option_of_yields hv with rfl | ⟨a, rfl, ha⟩
  · have hnull : g w.toJson = .null := by
      rw [← h, Value.toJson, hg.null]
    rw [eq_absent_of_null hg hw hnull]
    exact .refl _
  · rcases option_of_yields hw with rfl | ⟨b, rfl, hb⟩
    · have hnull : g (Value.option (some a)).toJson = .null := by
        rw [h, Value.toJson, hg.null]
      rw [eq_absent_of_null hg hv hnull]
      exact .refl _
    · -- An array is put around both or around neither, so what is inside can be compared.
      have hoption : a.isOption = b.isOption :=
        (head_of_yields ha).2.trans (head_of_yields hb).2.symm
      simp only [Value.toJson, hoption] at h
      refine .option (hinner a b ha hb ?_)
      split at h
      · simpa [hg.array] using h
      · exact h

theorem faithful_map (hg : Json.Arranges g) (key value : TypeExpr) (hkey : key.Faithful g)
    (hvalue : value.Faithful g) : (map key value).Faithful g := by
  intro v w hv hw h
  obtain ⟨t, p, hv⟩ := hv.exists_parse
  obtain ⟨u, q, hw⟩ := hw.exists_parse
  simp only [schema] at hv hw
  obtain ⟨es, hes, rfl⟩ := map_eq_ok.mp hv
  obtain ⟨fs, hfs, rfl⟩ := map_eq_ok.mp hw
  have hes := Schema.mapping_yields hes
  have hfs := Schema.mapping_yields hfs
  simp only [Value.toJson, hg.array, Value.jsonEntries_eq_map, List.map_map,
    Json.array.injEq] at h
  refine .map (forall₂_of_map_eq h ?_)
  rintro ⟨k, a⟩ ⟨l, b⟩ hpair heq
  obtain ⟨he, hf⟩ := List.of_mem_zip hpair
  simp only [Function.comp_apply, hg.array, List.map_cons, List.map_nil, Json.array.injEq,
    List.cons.injEq, and_true] at heq
  exact .alike (hkey k l (hes _ he).1 (hfs _ hf).1 heq.1)
    (hvalue a b (hes _ he).2 (hfs _ hf).2 heq.2)

theorem faithful_array (hg : Json.Arranges g) (element : TypeExpr) (helement : element.Faithful g) :
    (array element).Faithful g := by
  intro v w hv hw h
  obtain ⟨t, p, hv⟩ := hv.exists_parse
  obtain ⟨u, q, hw⟩ := hw.exists_parse
  simp only [schema] at hv hw
  obtain ⟨vs, hvs, rfl⟩ := map_eq_ok.mp hv
  obtain ⟨ws, hws, rfl⟩ := map_eq_ok.mp hw
  have hvs := Schema.array_yields hvs
  have hws := Schema.array_yields hws
  simp only [Value.toJson] at h
  refine .array (forall₂_of_map_eq (Value.map_eq_of_items_eq hg h) fun a b hab heq => ?_)
  obtain ⟨ha, hb⟩ := List.of_mem_zip hab
  exact helement a b (hvs a ha) (hws b hb) heq

theorem faithful_hereditary (hg : Json.Arranges g) :
    Hereditary (Faithful g) (Layout.Faithful g) where
  leaf := LeafType.faithful hg
  layout := faithful_layout
  enum := faithful_enum hg
  option := faithful_option hg
  map := faithful_map hg
  array := faithful_array hg
  struct := Layout.faithful_struct hg
  tuple := Layout.faithful_tuple hg

end TypeExpr

/-- **Two values that a type parses are the same as JSON if and only if they are alike**,
whether the members of objects stand as written or in name order. So options of options
that are absent at different depths stay distinct. -/
theorem run_toJson_eq_iff {type : TypeExpr} {t u : Tree} {v w : Value}
    (hv : type.schema.run t = .ok v) (hw : type.schema.run u = .ok w) :
    (v.toJson = w.toJson ↔ v.Alike w) ∧ (v.toJson.sorted = w.toJson.sorted ↔ v.Alike w) ∧
      ∀ m n, v = .absent m → w = .absent n → (v.toJson = w.toJson ↔ m = n) := by
  have halike : ∀ g, Json.Arranges g → g v.toJson = g w.toJson → v.Alike w := fun g hg =>
    (TypeExpr.faithful_hereditary hg).type type v w ⟨t, .root, hv⟩ ⟨u, .root, hw⟩
  have hiff : v.toJson = w.toJson ↔ v.Alike w :=
    ⟨halike id Json.arranges_id, Value.Alike.toJson_eq⟩
  refine ⟨hiff, ⟨halike _ Json.arranges_sorted, fun h => congrArg _ h.toJson_eq⟩, ?_⟩
  rintro m n rfl rfl
  exact hiff.trans Value.alike_absent_iff

/-- A byte-wide and a wide seven are the same as JSON, beside a field that is missing and one
that is an absent option; options that are absent at different depths are not. -/
theorem run_toJson_eq_iff_widths : ∃ (type : TypeExpr) (t u : Tree) (v w : Value),
    type.schema.run t = .ok v ∧ type.schema.run u = .ok w ∧
    v = .record [("count", .integer ⟨.u8, 7, by decide⟩), ("note", .missing)] ∧
    w = .record [("count", .integer ⟨.i64, 7, by decide⟩), ("note", .option none)] ∧
    v.toJson = w.toJson ∧
    ∃ t' u' v' w', (TypeExpr.option (.option (.leaf .bool))).schema.run t' = .ok v' ∧
      (TypeExpr.option (.option (.leaf .bool))).schema.run u' = .ok w' ∧ v'.toJson ≠ w'.toJson := by
  have hv : (TypeExpr.lenientStruct
      [("count", .leaf .number), ("note", .option (.option (.leaf .bool)))]).schema.run
        (.tuple {} [.leaf ⟨none, some "count"⟩ (.integer .u8 "7")]) =
      .ok (.record [("count", .integer ⟨.u8, 7, by decide⟩), ("note", .missing)]) := rfl
  have hw : (TypeExpr.lenientStruct
      [("count", .leaf .number), ("note", .option (.option (.leaf .bool)))]).schema.run
        (.tuple {} [.leaf ⟨none, some "count"⟩ (.integer .i64 "007"),
          .enum ⟨none, some "note"⟩ "0" (some "None") []]) =
      .ok (.record [("count", .integer ⟨.i64, 7, by decide⟩), ("note", .option none)]) := rfl
  have halike := ((run_toJson_eq_iff hv hw).1).mpr
    (.record (.cons (.alike (.integer rfl)) (.cons .missingLeft .nil)))
  have hv' : (TypeExpr.option (.option (.leaf .bool))).schema.run
      (.enum {} "0" (some "None") []) = .ok (.absent 0) := rfl
  have hw' : (TypeExpr.option (.option (.leaf .bool))).schema.run
      (.enum {} "1" (some "Some") [.enum {} "0" (some "None") []]) = .ok (.absent 1) := rfl
  have hdistinct := ((run_toJson_eq_iff hv' hw').2.2 0 1 rfl rfl).not.mpr (by decide)
  exact ⟨_, _, _, _, _, hv, hw, rfl, rfl, halike, _, _, _, _, hv', hw', hdistinct⟩

end SborSchema
