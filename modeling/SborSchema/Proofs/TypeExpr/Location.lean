/-
# Errors lie where their paths lead

The error of a failed parse carries a path and a message. Here the path is
followed down from the type and the tree together: each step leads from a part
of the type, with what it is to read, to a smaller part with what that one is
to read. The path is never at a loss for a step, and at its end the message
says what is wrong there (`run_error_located`).

Key definitions: `Spot`, `Spot.Step`, `Spot.Leads`, `Spot.Fault`.
Key theorems: `run_error_located`, `Spot.Fault.kind_ne`.
-/
import SborSchema.Proofs.Hex
import SborSchema.Proofs.Schema.FirstError
import SborSchema.Proofs.Schema.Related
import SborSchema.Proofs.Schema.Scalar
import SborSchema.Proofs.Schema.Variant
import SborSchema.Proofs.Tree.Kind
import SborSchema.Proofs.TypeExpr.Parts

namespace SborSchema

/-- A part of a type with what it is to read: a type reads a node, and a layout that is
the payload of a variant reads the fields of an enum node. -/
inductive Spot
  | node (type : TypeExpr) (tree : Tree)
  | fields (layout : Layout) (children : List Tree)

namespace Spot

/-! ### What is read at a spot -/

/-- The layout that is read at a spot, and the children it reads. -/
def layout? : Spot → Option (Layout × List Tree)
  | node (.layout L) (.tuple _ children) => some (L, children)
  | fields L children => some (L, children)
  | _ => none

/-- The declared variants between which an enum node chooses, the name that it has, and its
fields. An option is `None`, or `Some` with a tuple of one element. -/
def choice? : Spot → Option (List (String × Option Layout) × Option String × List Tree)
  | node (.enum variants) (.enum _ _ name children) => some (variants, name, children)
  | node (.option inner) (.enum _ _ name children) =>
    some ([("None", none), ("Some", some (.tuple [inner]))], name, children)
  | _ => none

/-- The kind and the text of an integer that is read at a spot. -/
def integer? : Spot → Option (IntegerKind × String)
  | node (.leaf .number) (.leaf _ (.integer kind text)) => some (kind, text)
  | node (.leaf .instant) (.leaf _ (.integer kind text)) =>
    if kind = .i64 then some (kind, text) else none
  | _ => none

/-- The element kind and the digits of a byte string that is read at a spot. -/
def bytes? : Spot → Option (Kind × String)
  | node (.leaf .bytes) (.leaf _ (.bytes elementKind hex)) => some (elementKind, hex)
  | _ => none

/-- The declared names that no child carries, in the order of declaration. -/
def absent (fields : List (String × TypeExpr)) (children : List Tree) : List String :=
  (fields.map (·.1)).filter fun name => (Tree.child? name children).isNone

/-! ### Ways down -/

/-- The step of a path from one spot to another. -/
inductive Step : Spot → Segment → Spot → Prop
  /-- A field name leads to the first child of that name, and to a declaration of it. -/
  | field {s : Spot} {allowMissing : Bool} {fs : List (String × TypeExpr)}
      {children : List Tree} {name : String} {type : TypeExpr} {t : Tree}
      (hs : s.layout? = some (.struct allowMissing fs, children)) (hdeclared : (name, type) ∈ fs)
      (hfirst : Tree.child? name children = some t) : Step s (.field name) (node type t)
  /-- A position in a tuple leads to the child and to the type that stand there. -/
  | place {s : Spot} {types : List TypeExpr} {children : List Tree} {i : Nat}
      {type : TypeExpr} {t : Tree} (hs : s.layout? = some (.tuple types, children))
      (hdeclared : types[i]? = some type) (hchild : children[i]? = some t) :
      Step s (.index i) (node type t)
  /-- A position in an array leads to the element there. -/
  | element {l : Labels} {k : Kind} {elements : List Tree} {i : Nat} {type : TypeExpr} {t : Tree}
      (helement : elements[i]? = some t) :
      Step (node (.array type) (.array l k elements)) (.index i) (node type t)
  /-- A position in a map leads to the key of the entry there, -/
  | key {l : Labels} {k k' : Kind} {entries : List (Tree × Tree)} {i : Nat}
      {key value : TypeExpr} {entry : Tree × Tree} (hentry : entries[i]? = some entry) :
      Step (node (.map key value) (.map l k k' entries)) (.index i) (node key entry.1)
  /-- or to its value. -/
  | value {l : Labels} {k k' : Kind} {entries : List (Tree × Tree)} {i : Nat}
      {key value : TypeExpr} {entry : Tree × Tree} (hentry : entries[i]? = some entry) :
      Step (node (.map key value) (.map l k k' entries)) (.index i) (node value entry.2)
  /-- The name of the variant of an enum node leads to the payload that is declared first
  under that name, and to the fields of the node. -/
  | variant {s : Spot} {declared : List (String × Option Layout)} {name name' : String}
      {children : List Tree} {L : Layout} (hs : s.choice? = some (declared, some name, children))
      (hdeclared : declared.find? (·.1 == name) = some (name', some L)) :
      Step s (.field name) (fields L children)

/-- The way a path leads from one spot to another. -/
inductive Leads : Spot → Route → Spot → Prop
  | here {s : Spot} : Leads s [] s
  | step {s s' s'' : Spot} {segment : Segment} {r : Route} (hstep : s.Step segment s')
      (hrest : Leads s' r s'') : Leads s (segment :: r) s''

/-! ### Faults -/

/-- What is wrong at a spot, and the message that says so. -/
inductive Fault : Spot → FaultKind → String → Prop
  /-- The kind of the node is not one that the type accepts. -/
  | wrongKind {type : TypeExpr} {t : Tree} (hkind : type.accepted.contains t.kind = false) :
      Fault (node type t) .wrongKind
        ("expected " ++ type.accepted.text ++ ", got " ++ t.kind.name)
  /-- Some names that a strict struct declares are carried by no child. -/
  | missingFields {s : Spot} {fs : List (String × TypeExpr)} {children : List Tree}
      (hs : s.layout? = some (.struct false fs, children)) (habsent : absent fs children ≠ []) :
      Fault s .missingFields
        ("missing required field(s): " ++ Text.listed (absent fs children))
  /-- A tuple declares another number of elements than there are children. -/
  | arityMismatch {s : Spot} {types : List TypeExpr} {children : List Tree}
      (hs : s.layout? = some (.tuple types, children)) (hne : types.length ≠ children.length) :
      Fault s .arityMismatch ("expected a tuple of " ++ Digits.text types.length ++
        " field(s), got " ++ Digits.text children.length)
  /-- An enum node has no name, -/
  | noVariant {s : Spot} {declared : List (String × Option Layout)} {children : List Tree}
      (hs : s.choice? = some (declared, none, children)) :
      Fault s .unknownVariant ("enum node has no variant name (expected one of: " ++
        Text.listed (declared.map (·.1)) ++ ")")
  /-- or one that no variant has. -/
  | unknownVariant {s : Spot} {declared : List (String × Option Layout)} {name : String}
      {children : List Tree} (hs : s.choice? = some (declared, some name, children))
      (hunknown : name ∉ declared.map (·.1)) :
      Fault s .unknownVariant ("unknown variant `" ++ name ++ "` (expected one of: " ++
        Text.listed (declared.map (·.1)) ++ ")")
  /-- The first variant of the name of an enum node is a unit, and the node has fields. -/
  | unitPayload {s : Spot} {declared : List (String × Option Layout)} {name : String}
      {children : List Tree} (hs : s.choice? = some (declared, some name, children))
      (hunit : declared.find? (·.1 == name) = some (name, none)) (hfields : children ≠ []) :
      Fault s .unitPayload ("unit variant `" ++ name ++ "` must have no fields, got " ++
        Digits.text children.length)
  /-- The text of an integer is not decimal. -/
  | notInteger {s : Spot} {kind : IntegerKind} {text : String}
      (hs : s.integer? = some (kind, text)) (htext : Digits.intValue? text.toList = none) :
      Fault s .malformed ("`" ++ text ++ "` is not a valid " ++ kind.name ++ " integer")
  /-- An integer without negative values is below zero. -/
  | negativeUnsigned {s : Spot} {kind : IntegerKind} {text : String} {n : Int}
      (hs : s.integer? = some (kind, text)) (hn : Digits.intValue? text.toList = some n)
      (hunsigned : kind.signed = false) (hneg : n < 0) :
      Fault s .outOfRange
        ("negative value " ++ text ++ " is not allowed for unsigned " ++ kind.name)
  /-- An integer lies outside the range of its kind for another reason. -/
  | outsideRange {s : Spot} {kind : IntegerKind} {text : String} {n : Int}
      (hs : s.integer? = some (kind, text)) (hn : Digits.intValue? text.toList = some n)
      (hout : n < kind.min ∨ kind.max < n) (hother : kind.signed = true ∨ 0 ≤ n) :
      Fault s .outOfRange ("value " ++ text ++ " is out of range for " ++ kind.name ++ " (" ++
        Digits.text kind.min ++ "..=" ++ Digits.text kind.max ++ ")")
  /-- An instant in the range of its kind lies outside the calendar. -/
  | outsideCalendar {l : Labels} {text : String} {n : Int}
      (hn : Digits.intValue? text.toList = some n)
      (hrange : IntegerKind.i64.min ≤ n ∧ n ≤ IntegerKind.i64.max)
      (hout : n < -8334601228800 ∨ 8210266876799 < n) :
      Fault (node (.leaf .instant) (.leaf l (.integer .i64 text))) .outOfRange
        ("timestamp " ++ Digits.text n ++ " is outside the representable date range")
  /-- The elements of a byte string are declared to be something else than bytes. -/
  | notByteElements {s : Spot} {elementKind : Kind} {hex : String}
      (hs : s.bytes? = some (elementKind, hex)) (hkind : elementKind ≠ .integer .u8) :
      Fault s .malformed ("bytes must have element kind U8, got " ++ elementKind.name)
  /-- The number of digits of a byte string is odd. -/
  | oddDigits {s : Spot} {hex : String} (hs : s.bytes? = some (.integer .u8, hex))
      (hodd : (Hex.utf8 hex).length % 2 = 1) :
      Fault s .malformed "invalid hex in bytes: Odd number of digits"
  /-- A byte of the text of a byte string is not a digit, and it is the first such one. -/
  | badDigit {s : Spot} {hex : String} {i : Nat} {b : UInt8}
      (hs : s.bytes? = some (.integer .u8, hex)) (heven : (Hex.utf8 hex).length % 2 = 0)
      (hb : (Hex.utf8 hex)[i]? = some b) (hbad : Hex.digit? b = none)
      (hfirst : ∀ j < i, ∀ c, (Hex.utf8 hex)[j]? = some c → Hex.digit? c ≠ none) :
      Fault s .malformed ("invalid hex in bytes: Invalid character " ++
        Text.quoteChar (Char.ofNat b.toNat) ++ " at position " ++ Digits.text i)

/-- No fault at a spot is a refused conversion, a tree that is too deep, or a reference
whose owner is gone. -/
theorem Fault.kind_ne {s : Spot} {kind : FaultKind} {message : String}
    (h : s.Fault kind message) :
    kind ≠ .rejected ∧ kind ≠ .depthExceeded ∧ kind ≠ .detached := by
  cases h <;> decide

/-! ### Explanations -/

/-- Below the path `p` of the spot, the path of the error leads to a spot where its
message is true. -/
def Explains (s : Spot) (p : Path) (e : ParseError) : Prop :=
  ∃ q s', e.path = p.segments ++ q ∧ s.Leads q s' ∧ s'.Fault e.cause.kind e.cause.message

variable {s s' : Spot} {p : Path} {e : ParseError}

/-- A fault of the spot itself explains an error at its path. -/
theorem Fault.explains (c : Cause) (h : s.Fault c.kind c.message) : s.Explains p ⟨c, p⟩ :=
  ⟨[], s, (List.append_nil p.segments).symm, .here, h⟩

/-- An error is explained by what explains it one step further down. -/
theorem Step.explains {segment : Segment} (h : s.Step segment s')
    (he : s'.Explains (p.step segment) e) : s.Explains p e := by
  obtain ⟨q, s'', hpath, hleads, hfault⟩ := he
  refine ⟨segment :: q, s'', ?_, .step h hleads, hfault⟩
  rw [hpath, Path.segments_step, List.append_assoc]
  rfl

end Spot

/-- The error of a failed parse of the type is explained at its spot. -/
def TypeExpr.Explained (type : TypeExpr) : Prop :=
  ∀ t p e, type.schema.parseGated t p = .error e → (Spot.node type t).Explains p e

/-- The error of a failed parse of fields is explained at every spot of the layout. -/
def Layout.Explained (L : Layout) : Prop :=
  ∀ (s : Spot) (children : List Tree) (p : Path) (e : ParseError),
    s.layout? = some (L, children) → L.payload.parseFields children p = .error e → s.Explains p e

/-- The gate explains itself, so only nodes of accepted kinds are left. -/
theorem TypeExpr.Explained.of_accepted {type : TypeExpr}
    (h : ∀ t p e, type.accepted.contains t.kind = true → type.schema.parse t p = .error e →
      (Spot.node type t).Explains p e) : type.Explained := by
  intro t p e hfail
  obtain ⟨hc, rfl⟩ | ⟨hc, hparse⟩ := Schema.parseGated_eq_error hfail
  · rw [type.kinds_schema] at hc ⊢
    exact Spot.Fault.explains _ (.wrongKind hc)
  · rw [type.kinds_schema] at hc
    exact h t p e hc hparse

/-! ### Leaves -/

namespace LeafType

variable {labels : Labels} {p : Path} {e : ParseError}

theorem explained_integer {s : Spot} {kind : IntegerKind} {text : String} {c : Cause}
    (hs : s.integer? = some (kind, text)) (h : Integer.read kind text = .error c) :
    s.Explains p ⟨c, p⟩ := by
  obtain ⟨hnone, rfl⟩ | ⟨n, hn, hout, ⟨hunsigned, hneg, rfl⟩ | ⟨hother, rfl⟩⟩ :=
    Integer.read_eq_error h
  · exact Spot.Fault.explains _ (.notInteger hs hnone)
  · exact Spot.Fault.explains _ (.negativeUnsigned hs hn hunsigned hneg)
  · have hout : n < kind.min ∨ kind.max < n := by omega
    exact Spot.Fault.explains _ (.outsideRange hs hn hout hother)

theorem explained_instant {text : String} {c : Cause} (h : Schema.readInstant text = .error c) :
    (Spot.node (.leaf .instant) (.leaf labels (.integer .i64 text))).Explains p ⟨c, p⟩ := by
  obtain h | ⟨x, hx, hout, rfl⟩ := Schema.readInstant_eq_error h
  · exact explained_integer rfl h
  · obtain ⟨hvalue, hkind⟩ := Integer.read_eq_ok hx
    simp only [Instant.ofSeconds?, dite_eq_right_iff, reduceCtorEq, imp_false] at hout
    have hout : x.value < -8334601228800 ∨ 8210266876799 < x.value := by omega
    exact Spot.Fault.explains _ (.outsideCalendar hvalue (hkind ▸ x.inRange) hout)

theorem explained_bytes {elementKind : Kind} {hex : String}
    (h : Schema.checkBytes (.leaf labels (.bytes elementKind hex)) p = .error e) :
    (Spot.node (.leaf .bytes) (.leaf labels (.bytes elementKind hex))).Explains p e := by
  simp only [Schema.checkBytes] at h
  split at h
  · next hkind =>
    obtain rfl := Except.error.inj h
    exact Spot.Fault.explains _ (.notByteElements rfl hkind)
  · next hkind =>
    obtain rfl := Classical.not_not.mp hkind
    split at h
    · cases h
    · next fault hdecode =>
      obtain rfl := Except.error.inj h
      obtain ⟨hodd, rfl⟩ | ⟨heven, i, b, hb, hbad, hfirst, rfl⟩ := Hex.decode_eq_error hdecode
      · exact Spot.Fault.explains _ (.oddDigits rfl hodd)
      · exact Spot.Fault.explains _ (.badDigit rfl heven hb hbad hfirst)

/-- Leaves that hand on their content never refuse a node of an accepted kind. -/
theorem explained_text {l : LeafType} (hl : l ≠ .number ∧ l ≠ .instant ∧ l ≠ .bytes) :
    (TypeExpr.leaf l).Explained := by
  refine .of_accepted fun t p e hc h => ?_
  simp only [TypeExpr.schema] at h
  exfalso
  cases l with
  | number | instant | bytes => simp at hl
  | value => cases h
  | bool | string | decimal | address | internalAddress | nonFungibleLocalId =>
    rcases t with ⟨labels, content⟩ | _ | _ | _ | _
    case leaf =>
      -- Content of another kind is not accepted, the rest is handed on.
      cases content <;>
        first
        | simp [TypeExpr.accepted, accepted, Tree.kind, Leaf.kind, KindSet.decimals,
            KindSet.contains_ofList] at hc; done
        | cases h
    all_goals simp [TypeExpr.accepted, accepted, Tree.kind, KindSet.decimals,
      KindSet.contains_ofList] at hc

theorem explained_number : (TypeExpr.leaf .number).Explained := by
  refine .of_accepted fun t p e hc h => ?_
  obtain ⟨kind, hkind⟩ := KindSet.contains_integers.mp hc
  obtain ⟨labels, text, rfl⟩ := Tree.exists_integer hkind
  simp only [TypeExpr.schema] at h
  obtain ⟨c, hread, rfl⟩ :=
    Schema.parse_leaf_eq_error (s := Schema.number) rfl rfl (map_eq_error.mp h)
  exact explained_integer rfl hread

theorem explained_timestamp : (TypeExpr.leaf .instant).Explained := by
  refine .of_accepted fun t p e hc h => ?_
  obtain ⟨labels, text, rfl⟩ := Tree.exists_integer (KindSet.eq_of_contains_single hc)
  simp only [TypeExpr.schema] at h
  obtain ⟨c, hread, rfl⟩ :=
    Schema.parse_leaf_eq_error (s := Schema.instant) rfl rfl (map_eq_error.mp h)
  exact explained_instant hread

theorem explained_hex : (TypeExpr.leaf .bytes).Explained := by
  refine .of_accepted fun t p e hc h => ?_
  obtain ⟨labels, elementKind, hex, rfl⟩ := Tree.exists_bytes (KindSet.eq_of_contains_single hc)
  simp only [TypeExpr.schema] at h
  obtain h | ⟨_, -, h⟩ := bind_eq_error.mp (map_eq_error.mp h)
  · exact explained_bytes h
  · cases h

/-- The error of a leaf lies at the leaf. -/
theorem explained (l : LeafType) : (TypeExpr.leaf l).Explained := by
  cases l with
  | number => exact explained_number
  | instant => exact explained_timestamp
  | bytes => exact explained_hex
  | _ => exact explained_text (by decide)

end LeafType

/-! ### Layouts -/

namespace Layout

theorem missingNames_fieldSchemas (fs : List (String × TypeExpr)) (children : List Tree) :
    Payload.missingNames (fieldSchemas fs) children = Spot.absent fs children := by
  rw [Payload.missingNames, fieldSchemas_eq_map, List.map_map]
  rfl

/-- The error of a field lies below its name. -/
theorem explained_field {s : Spot} {allowMissing : Bool} {fs : List (String × TypeExpr)}
    {children : List Tree} {p : Path} {e : ParseError} (hfields : ∀ f ∈ fs, f.2.Explained)
    (hs : s.layout? = some (.struct allowMissing fs, children))
    (h : ∃ f ∈ fieldSchemas fs, ∃ t, Tree.child? f.1 children = some t ∧
      f.2.parseGated t (p.field f.1) = .error e) : s.Explains p e := by
  obtain ⟨f, hf, t, hfirst, hfail⟩ := h
  rw [fieldSchemas_eq_map] at hf
  obtain ⟨⟨name, type⟩, hmem, rfl⟩ := List.mem_map.mp hf
  exact (Spot.Step.field hs hmem hfirst).explains (hfields _ hmem t _ e hfail)

theorem explained_struct (allowMissing : Bool) (fs : List (String × TypeExpr))
    (hfields : ∀ f ∈ fs, f.2.Explained) : (struct allowMissing fs).Explained := by
  intro s children p e hs h
  cases allowMissing with
  | false =>
    simp only [payload] at h
    obtain ⟨hne, rfl⟩ | hfield := Payload.struct_eq_error (map_eq_error.mp h)
    · rw [missingNames_fieldSchemas] at hne ⊢
      exact Spot.Fault.explains _ (.missingFields hs hne)
    · exact explained_field hfields hs hfield
  | true =>
    simp only [payload] at h
    exact explained_field hfields hs (Payload.lenientStruct_eq_error (map_eq_error.mp h))

theorem explained_tuple (types : List TypeExpr) (htypes : ∀ type ∈ types, type.Explained) :
    (tuple types).Explained := by
  intro s children p e hs h
  simp only [payload, elementSchemas_eq_map] at h
  obtain ⟨hne, rfl⟩ | ⟨i, schema, t, hschema, ht, hfail⟩ :=
    Payload.tuple_eq_error (map_eq_error.mp h)
  · rw [List.length_map] at hne ⊢
    exact Spot.Fault.explains _ (.arityMismatch hs hne.symm)
  · rw [List.getElem?_map, Option.map_eq_some_iff] at hschema
    obtain ⟨type, htype, rfl⟩ := hschema
    exact (Spot.Step.place hs htype ht).explains
      (htypes type (List.mem_of_getElem? htype) t _ e hfail)

end Layout

/-! ### Enums, options, maps and arrays -/

namespace TypeExpr

variable {α : Type} {p : Path} {e : ParseError}

/-- A node that names none of the declared variants, or a unit variant that it gives fields, is
at fault itself. -/
theorem explained_resolve {s : Spot} (declared : List (String × Option Layout))
    (read : Layout → Payload α) {l : Labels} {id : String} {name : Option String}
    {children : List Tree} (hs : s.choice? = some (declared, name, children))
    (h : Variant.resolve (variantsBy read declared) (.enum l id name children) p = .error e) :
    s.Explains p e := by
  have hnames : (variantsBy read declared).map (·.name) = declared.map (·.1) := by
    rw [variantsBy, List.map_map]
    rfl
  obtain ⟨hnone, rfl⟩ | ⟨v, hfind, hunit, hne, rfl⟩ := Variant.resolve_eq_error h
  · rw [hnames]
    cases name with
    | none =>
      exact Spot.Fault.explains _ (.noVariant hs)
    | some n =>
      refine Spot.Fault.explains _ (.unknownVariant hs fun hmem => ?_)
      rw [Option.bind_some, find?_variantsBy, Option.map_eq_none_iff, List.find?_eq_none] at hnone
      obtain ⟨d, hd, rfl⟩ := List.mem_map.mp hmem
      exact hnone d hd (beq_self_eq_true d.1)
  · obtain ⟨n, rfl, hn⟩ := Option.bind_eq_some_iff.mp hfind
    rw [find?_variantsBy, Option.map_eq_some_iff] at hn
    obtain ⟨⟨n', layout⟩, hdeclared, rfl⟩ := hn
    obtain rfl : n' = n := by simpa using List.find?_some hdeclared
    obtain rfl : layout = none := Option.map_eq_none_iff.mp hunit
    exact Spot.Fault.explains _ (.unitPayload hs hdeclared hne)

/-- The error of an enum node lies at the node, or below the name of its variant. -/
theorem explained_choice {s : Spot} (declared : List (String × Option Layout))
    (read : Layout → Payload α) {l : Labels} {id : String} {name : Option String}
    {children : List Tree} (hs : s.choice? = some (declared, name, children))
    (hread : ∀ d ∈ declared, ∀ L, d.2 = some L → ∀ q,
      (read L).parseFields children q = .error e → (Spot.fields L children).Explains q e)
    (h : (Schema.enum (variantsBy read declared)).parse (.enum l id name children) p = .error e) :
    s.Explains p e := by
  obtain hresolve | ⟨v, fields, payload, hresolve, hpayload, hfail⟩ := Schema.enum_eq_error h
  · exact explained_resolve declared read hs hresolve
  · obtain ⟨⟨n, rfl, hn, rfl⟩, rfl, -⟩ := Variant.resolve_eq_ok hresolve
    rw [find?_variantsBy, Option.map_eq_some_iff] at hn
    obtain ⟨⟨n, layout⟩, hdeclared, rfl⟩ := hn
    obtain ⟨L, rfl, rfl⟩ := Option.map_eq_some_iff.mp hpayload
    exact (Spot.Step.variant hs hdeclared).explains
      (hread _ (List.mem_of_find?_eq_some hdeclared) L rfl _ hfail)

theorem explained_enum (variants : List (String × Option Layout))
    (hvariants : ∀ v ∈ variants, ∀ L, v.2 = some L → L.Explained) :
    (enum variants).Explained := by
  refine .of_accepted fun t p e hc h => ?_
  obtain ⟨l, id, name, children, rfl⟩ := Tree.exists_enum (KindSet.eq_of_contains_single hc)
  simp only [schema, variantSchemas_eq] at h
  refine explained_choice variants Layout.payload rfl (fun d hd L hL q hfail => ?_)
    (map_eq_error.mp h)
  exact hvariants d hd L hL _ _ _ _ rfl hfail

theorem explained_option (inner : TypeExpr) (hinner : inner.Explained) :
    (option inner).Explained := by
  refine .of_accepted fun t p e hc h => ?_
  obtain ⟨l, id, name, children, rfl⟩ := Tree.exists_enum (KindSet.eq_of_contains_single hc)
  simp only [schema, Schema.option_eq_map_enum] at h
  -- Both layouts that are read below an option are the tuple of its one element.
  refine explained_choice [("None", none), ("Some", some (.tuple [inner]))]
    (fun _ => (Payload.fixedTuple (.cons inner.schema .nil)).map Prod.fst) rfl
    (fun d hd L hL q hfail => ?_) (map_eq_error.mp (map_eq_error.mp h))
  obtain rfl : L = .tuple [inner] := by
    rcases List.mem_pair.mp hd with rfl | rfl
    · cases hL
    · exact (Option.some.inj hL).symm
  obtain ⟨hne, he⟩ | ⟨u, rfl, hchild⟩ := Payload.fixedTuple_one_eq_error (map_eq_error.mp hfail)
  · rw [← List.length_singleton (a := inner)] at hne he
    rw [he]
    exact Spot.Fault.explains _ (.arityMismatch rfl hne.symm)
  · exact (Spot.Step.place rfl (i := 0) rfl rfl).explains (hinner u _ e hchild)

theorem explained_map (key value : TypeExpr) (hkey : key.Explained) (hvalue : value.Explained) :
    (map key value).Explained := by
  refine .of_accepted fun t p e hc h => ?_
  obtain ⟨l, k, k', entries, rfl⟩ := Tree.exists_map (KindSet.eq_of_contains_single hc)
  simp only [schema] at h
  obtain ⟨i, entry, hentry, hfail⟩ := Schema.parseEntries_eq_error (map_eq_error.mp h)
  rw [Nat.zero_add] at hfail
  obtain hfail | hfail := hfail
  · exact (Spot.Step.key hentry).explains (hkey _ _ e hfail)
  · exact (Spot.Step.value hentry).explains (hvalue _ _ e hfail)

theorem explained_array (element : TypeExpr) (helement : element.Explained) :
    (array element).Explained := by
  refine .of_accepted fun t p e hc h => ?_
  obtain ⟨l, k, elements, rfl⟩ := Tree.exists_array (KindSet.eq_of_contains_single hc)
  simp only [schema] at h
  obtain ⟨i, u, hu, hfail⟩ := Schema.parseElements_eq_error (map_eq_error.mp h)
  rw [Nat.zero_add] at hfail
  exact (Spot.Step.element hu).explains (helement u _ e hfail)

/-- A layout that stands by itself reads the fields of a tuple node. -/
theorem explained_layout (L : Layout) (hL : L.Explained) : (layout L).Explained := by
  refine .of_accepted fun t p e hc h => ?_
  obtain ⟨l, children, rfl⟩ := Tree.exists_tuple (KindSet.eq_of_contains_single hc)
  simp only [schema] at h
  rw [L.parse_eq] at h
  exact hL _ children p e rfl h

theorem explained_hereditary : Hereditary Explained Layout.Explained where
  leaf := LeafType.explained
  layout := explained_layout
  enum := explained_enum
  option := explained_option
  map := explained_map
  array := explained_array
  struct := Layout.explained_struct
  tuple := Layout.explained_tuple

end TypeExpr

/-- **Every error is true where its path leads.** If a tree does not parse by a type, the
path of the error leads from the type and the tree to a part of both, and what its
message says is wrong there. -/
theorem run_error_located {type : TypeExpr} {t : Tree} {e : ParseError}
    (h : type.schema.run t = .error e) :
    ∃ s, (Spot.node type t).Leads e.path s ∧ s.Fault e.cause.kind e.cause.message := by
  obtain ⟨q, s, hpath, hleads, hfault⟩ := TypeExpr.explained_hereditary.type type t .root e h
  obtain rfl : e.path = q := hpath
  exact ⟨s, hleads, hfault⟩

/-- A number that is too large, below a field, an array and an option. -/
theorem run_error_located_nested : ∃ (type : TypeExpr) (t : Tree) (s : Spot),
    type.schema.run t = .error ⟨.outsideRange .u8 "256",
      [.field "items", .index 1, .field "Some", .index 0]⟩ ∧
    (Spot.node type t).Leads [.field "items", .index 1, .field "Some", .index 0] s ∧
    s.Fault .outOfRange "value 256 is out of range for U8 (0..=255)" := by
  have h : (TypeExpr.struct [("items", .array (.option (.leaf .number)))]).schema.run
      (.tuple {} [.array ⟨none, some "items"⟩ .enum [.enum {} "0" (some "None") [],
        .enum {} "1" (some "Some") [.leaf {} (.integer .u8 "256")]]]) =
      .error ⟨.outsideRange .u8 "256", [.field "items", .index 1, .field "Some", .index 0]⟩ := rfl
  have hmessage : (Cause.outsideRange .u8 "256").message =
      "value 256 is out of range for U8 (0..=255)" := by decide
  obtain ⟨s, hleads, hfault⟩ := run_error_located h
  exact ⟨_, _, s, h, hleads, hmessage ▸ hfault⟩

end SborSchema
