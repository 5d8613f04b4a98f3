/-
# The written form of a type can be read in one way

If the names of fields and variants are words, then every part of a written type
ends where the text cannot go on with it: a word at a character of another sort,
an item of a list at the separator or the closing bracket, a type at the last
brackets of arrays. So types with the same written form are the same, and so are
the types of definitions that show the same type as JSON.

Key definitions: `TypeExpr.WordNamed`, `TypeExpr.SelfDelimiting`, `Layout.SelfDelimiting`,
`Definition.entry?`.
Key theorems: `TypeExpr.selfDelimiting_hereditary`, `TypeExpr.text_tells_types_apart`.
-/
import SborSchema.Definition
import SborSchema.Proofs.TypeExpr.Parts
import SborSchema.Proofs.TypeExpr.Written

namespace SborSchema

/-- The names of all fields and variants in the type are words. -/
def TypeExpr.WordNamed : TypeExpr → Prop :=
  TypeExpr.All (fun _ => True) fun names => ∀ name ∈ names, Text.IsWord name

/-- The same of a layout. -/
def Layout.WordNamed : Layout → Prop :=
  Layout.All (fun _ => True) fun names => ∀ name ∈ names, Text.IsWord name

namespace TypeExpr

theorem WordNamed.core : ∀ {type : TypeExpr}, type.WordNamed → type.core.WordNamed
  | leaf _, h | layout _, h | enum _, h | option _, h | map .., h => h
  | array element, h => by
    cases h with
    | array helement =>
      have hnamed : element.WordNamed := helement
      exact hnamed.core

/-! ### Reading in one way -/

/-- The type can be told from what follows it once it is written, as can the other types. -/
def SelfDelimiting (type : TypeExpr) : Prop :=
  ∀ type' : TypeExpr, type'.WordNamed → ∀ rest rest', EndsType rest → EndsType rest' →
    type.text.toList ++ rest = type'.text.toList ++ rest' → type = type' ∧ rest = rest'

/-- The same of the type without the arrays around it, whose brackets may follow then. -/
def CoreSelfDelimiting (type : TypeExpr) : Prop :=
  ∀ type' : TypeExpr, type'.WordNamed → ∀ rest rest', Text.LeavesWord rest →
    Text.LeavesWord rest' → type.core.text.toList ++ rest = type'.core.text.toList ++ rest' →
    type.core = type'.core ∧ rest = rest'

/-- A type is self-delimiting with the arrays around it if it is without them. -/
theorem CoreSelfDelimiting.selfDelimiting {type : TypeExpr} (h : type.CoreSelfDelimiting) :
    type.SelfDelimiting := by
  intro type' htype' rest rest' hrest hrest' htext
  rw [toList_text_core, toList_text_core type'] at htext
  obtain ⟨hcore, hbrackets⟩ := h type' htype' _ _ (leavesWord_brackets hrest.1 _)
    (leavesWord_brackets hrest'.1 _) htext
  obtain ⟨hrank, hrests⟩ := brackets_inj hrest hrest' hbrackets
  refine ⟨?_, hrests⟩
  rw [← arrays_rank_core type, ← arrays_rank_core type', hcore, hrank]

/-- For a type that is no array it is enough to look at what stands behind the keyword. -/
theorem coreSelfDelimiting_of_behind {type : TypeExpr} (hcore : type.core = type)
    (h : ∀ type' : TypeExpr, type'.WordNamed → SameForm type type' → ∀ rest rest',
      Text.LeavesWord rest → Text.LeavesWord rest' → type.behind rest = type'.behind rest' →
      type = type' ∧ rest = rest') : type.CoreSelfDelimiting := by
  intro type' htype' rest rest' hrest hrest' htext
  have hrank : type.rank = 0 := by rw [← hcore, rank_core]
  rw [hcore] at htext ⊢
  obtain ⟨hkeyword, hbehind⟩ := keyword_behind_inj hrest hrest' htext
  exact h type'.core htype'.core (.of_keyword_eq hrank type'.rank_core hkeyword) rest rest' hrest
    hrest' hbehind

/-- Between the items of a list a type ends. -/
theorem endsType_of_followsItem {first close : Char} {rest : List Char}
    (hfirst : Text.isWordChar first = false ∧ first ≠ '[')
    (hclose : Text.isWordChar close = false ∧ close ≠ '[')
    (h : Text.FollowsItem first close rest) : EndsType rest := by
  cases rest with
  | nil => rcases h with h | h <;> cases h
  | cons c rest =>
    rcases h with h | h
    · obtain rfl : c = first := Option.some.inj h
      exact endsType_cons hfirst.1 hfirst.2 rest
    · obtain rfl : c = close := Option.some.inj h
      exact endsType_cons hclose.1 hclose.2 rest

end TypeExpr

/-! ### Layouts -/

namespace Layout

/-- The layout can be told from what follows its closing bracket, as can the other layouts of its
word. -/
def SelfDelimiting (L : Layout) : Prop :=
  ∀ L' : Layout, L'.WordNamed → L.word = L'.word → ∀ rest rest' : List Char,
    L.body.toList ++ rest = L'.body.toList ++ rest' → L = L' ∧ rest = rest'

/-- A field can be told from what follows it. -/
theorem fieldChars_append_inj {f f' : String × TypeExpr} {rest rest' : List Char}
    (hname : Text.IsWord f.1) (hname' : Text.IsWord f'.1) (htype : f.2.SelfDelimiting)
    (htype' : f'.2.WordNamed) (hrest : TypeExpr.EndsType rest) (hrest' : TypeExpr.EndsType rest')
    (h : fieldChars f ++ rest = fieldChars f' ++ rest') : f = f' ∧ rest = rest' := by
  obtain ⟨name, type⟩ := f
  obtain ⟨name', type'⟩ := f'
  simp only [fieldChars, List.append_assoc, List.cons_append] at h
  obtain ⟨rfl, hbehind⟩ := Text.word_append_inj hname hname'
    (Text.leavesWord_cons (by decide) _) (Text.leavesWord_cons (by decide) _) h
  obtain ⟨rfl, hrests⟩ := htype type' htype' rest rest' hrest hrest'
    (List.cons.inj (List.cons.inj hbehind).2).2
  exact ⟨rfl, hrests⟩

theorem selfDelimiting_struct {allowMissing : Bool} {fields : List (String × TypeExpr)}
    (hnames : ∀ f ∈ fields, Text.IsWord f.1) (hfields : ∀ f ∈ fields, f.2.SelfDelimiting) :
    (struct allowMissing fields).SelfDelimiting := by
  intro L' hL' hword rest rest' h
  cases L' with
  | tuple elements => exact absurd hword (word_struct_ne_tuple fields elements allowMissing)
  | struct allowMissing' fields' =>
    obtain rfl := word_struct_inj hword
    cases hL' with
    | struct hnames' hfields' =>
      rw [List.forall_mem_map] at hnames'
      rw [toList_body_struct, toList_body_struct] at h
      have hstart {fields : List (String × TypeExpr)} (hnames : ∀ f ∈ fields, Text.IsWord f.1) :
          Text.ItemsStart fieldChars '\x7d' fields := by
        intro f hf rest
        rw [fieldChars, List.append_assoc]
        exact Text.head?_word_append (hnames f hf) (by decide) _
      have hend : Text.ItemsEnd fieldChars ',' '\x7d' fields fields' := by
        intro f hf f' hf' rest rest' hrest hrest'
        exact fieldChars_append_inj (hnames f hf) (hnames' f' hf') (hfields f hf) (hfields' f' hf')
          (TypeExpr.endsType_of_followsItem (by decide) (by decide) hrest)
          (TypeExpr.endsType_of_followsItem (by decide) (by decide) hrest')
      obtain ⟨rfl, hrests⟩ := Text.intercalate_append_inj (by decide) (hstart hnames)
        (hstart hnames') hend (List.cons.inj h).2
      exact ⟨rfl, hrests⟩

theorem selfDelimiting_tuple {elements : List TypeExpr}
    (helements : ∀ type ∈ elements, type.SelfDelimiting) : (tuple elements).SelfDelimiting := by
  intro L' hL' hword rest rest' h
  cases L' with
  | struct allowMissing fields =>
    exact absurd hword.symm (word_struct_ne_tuple fields elements allowMissing)
  | tuple elements' =>
    cases hL' with
    | tuple helements' =>
      rw [toList_body_tuple, toList_body_tuple] at h
      have hstart (elements : List TypeExpr) :
          Text.ItemsStart (fun type : TypeExpr => type.text.toList) ')' elements :=
        fun type _ rest => type.head?_text_append (by decide) rest
      have hend : Text.ItemsEnd (fun type : TypeExpr => type.text.toList) ',' ')' elements
          elements' := by
        intro type htype type' htype' rest rest' hrest hrest'
        exact helements type htype type' (helements' type' htype') rest rest'
          (TypeExpr.endsType_of_followsItem (by decide) (by decide) hrest)
          (TypeExpr.endsType_of_followsItem (by decide) (by decide) hrest')
      obtain ⟨rfl, hrests⟩ := Text.intercalate_append_inj (by decide) (hstart elements)
        (hstart elements') hend (List.cons.inj h).2
      exact ⟨rfl, hrests⟩

/-- What stands behind the name of a variant can be told from what follows it. -/
theorem payloadChars_append_inj {payload payload' : Option Layout} {rest rest' : List Char}
    (hpayload : ∀ L, payload = some L → L.SelfDelimiting)
    (hpayload' : ∀ L, payload' = some L → L.WordNamed)
    (hrest : Text.FollowsItem ' ' '\x7d' rest) (hrest' : Text.FollowsItem ' ' '\x7d' rest')
    (h : payloadChars payload ++ rest = payloadChars payload' ++ rest') :
    payload = payload' ∧ rest = rest' := by
  -- What follows a variant starts differently from all payloads.
  have hfirst (L : Layout) {rest rest' : List Char} (hrest : Text.FollowsItem ' ' '\x7d' rest) :
      payloadChars (some L) ++ rest' ≠ rest := by
    rintro rfl
    obtain ⟨cs, hcs⟩ := exists_payload_eq_cons rest' L
    obtain ⟨hblank, hclose, -⟩ := opening_ne L
    rw [Text.FollowsItem, hcs] at hrest
    rcases hrest with hc | hc
    · exact hblank (Option.some.inj hc)
    · exact hclose (Option.some.inj hc)
  cases payload with
  | none =>
    cases payload' with
    | none => exact ⟨rfl, h⟩
    | some L' => exact absurd h.symm (hfirst L' hrest)
  | some L =>
    cases payload' with
    | none => exact absurd h (hfirst L hrest')
    | some L' =>
      obtain ⟨cs, hcs⟩ := exists_payload_eq_cons rest L
      obtain ⟨cs', hcs'⟩ := exists_payload_eq_cons rest' L'
      have hopening : L.opening = L'.opening := by
        rw [hcs, hcs'] at h
        exact (List.cons.inj h).1
      obtain ⟨hword, hmark⟩ := word_eq_of_opening_eq hopening
      rw [payloadChars, payloadChars, hmark, List.append_assoc, List.append_assoc,
        List.append_cancel_left_eq] at h
      obtain ⟨rfl, hrests⟩ := hpayload L rfl L' (hpayload' L' rfl) hword rest rest' h
      exact ⟨rfl, hrests⟩

/-- A variant can be told from what follows it. -/
theorem variantChars_append_inj {v v' : String × Option Layout} {rest rest' : List Char}
    (hname : Text.IsWord v.1) (hname' : Text.IsWord v'.1)
    (hpayload : ∀ L, v.2 = some L → L.SelfDelimiting)
    (hpayload' : ∀ L, v'.2 = some L → L.WordNamed)
    (hrest : Text.FollowsItem ' ' '\x7d' rest) (hrest' : Text.FollowsItem ' ' '\x7d' rest')
    (h : variantChars v ++ rest = variantChars v' ++ rest') : v = v' ∧ rest = rest' := by
  obtain ⟨name, payload⟩ := v
  obtain ⟨name', payload'⟩ := v'
  have hleaves (payload : Option Layout) {rest : List Char}
      (hrest : Text.FollowsItem ' ' '\x7d' rest) : Text.LeavesWord (payloadChars payload ++ rest) := by
    cases payload with
    | none => exact (TypeExpr.endsType_of_followsItem (by decide) (by decide) hrest).1
    | some L =>
      obtain ⟨cs, hcs⟩ := exists_payload_eq_cons rest L
      rw [hcs]
      exact Text.leavesWord_cons (opening_ne L).2.2 cs
  rw [variantChars, variantChars, List.append_assoc, List.append_assoc] at h
  obtain ⟨rfl, hbehind⟩ := Text.word_append_inj hname hname' (hleaves payload hrest)
    (hleaves payload' hrest') h
  obtain ⟨rfl, hrests⟩ := payloadChars_append_inj hpayload hpayload' hrest hrest' hbehind
  exact ⟨rfl, hrests⟩

end Layout

namespace TypeExpr

/-! ### All types -/

theorem coreSelfDelimiting_enum {variants : List (String × Option Layout)}
    (hnames : ∀ v ∈ variants, Text.IsWord v.1)
    (hvariants : ∀ v ∈ variants, ∀ L, v.2 = some L → L.SelfDelimiting) :
    (enum variants).CoreSelfDelimiting := by
  refine coreSelfDelimiting_of_behind rfl fun type' htype' hform rest rest' _ _ h => ?_
  cases hform with
  | enum variants variants' =>
    cases htype' with
    | enum hnames' hvariants' =>
      rw [List.forall_mem_map] at hnames'
      have hstart {variants : List (String × Option Layout)}
          (hnames : ∀ v ∈ variants, Text.IsWord v.1) :
          Text.ItemsStart variantChars '\x7d' variants := by
        intro v hv rest
        rw [variantChars, List.append_assoc]
        exact Text.head?_word_append (hnames v hv) (by decide) _
      have hend : Text.ItemsEnd variantChars ' ' '\x7d' variants variants' :=
        fun v hv v' hv' _ _ hrest hrest' => Layout.variantChars_append_inj (hnames v hv)
          (hnames' v' hv') (hvariants v hv) (hvariants' v' hv') hrest hrest'
      obtain ⟨rfl, hrests⟩ := Text.intercalate_append_inj (by decide) (hstart hnames)
        (hstart hnames') hend (List.cons.inj h).2
      exact ⟨rfl, hrests⟩

/-- **Types whose names are words can be told from what follows them once they are written**,
layouts likewise. -/
theorem selfDelimiting_hereditary : Hereditary
    (fun type => type.WordNamed → type.CoreSelfDelimiting)
    (fun L => L.WordNamed → L.SelfDelimiting) where
  leaf l _ := by
    refine coreSelfDelimiting_of_behind rfl fun type' _ hform rest rest' _ _ h => ?_
    cases hform
    exact ⟨rfl, h⟩
  layout L hL htype := by
    cases htype with
    | layout hlayout =>
      refine coreSelfDelimiting_of_behind rfl fun type' htype' hform rest rest' _ _ h => ?_
      cases hform with
      | @layout _ L' hword =>
        cases htype' with
        | layout hlayout' =>
          obtain ⟨rfl, hrests⟩ := hL hlayout L' hlayout' hword rest rest' h
          exact ⟨rfl, hrests⟩
  enum variants hvariants htype := by
    cases htype with
    | enum hnames hlayouts =>
      exact coreSelfDelimiting_enum (List.forall_mem_map.mp hnames) fun v hv L hL =>
        hvariants v hv L hL (hlayouts v hv L hL)
  option inner hinner htype := by
    cases htype with
    | option htype =>
      refine coreSelfDelimiting_of_behind rfl fun type' htype' hform rest rest' _ _ h => ?_
      cases hform with
      | option _ inner' =>
        cases htype' with
        | option htype' =>
          obtain ⟨rfl, hclose⟩ := (hinner htype).selfDelimiting inner' htype' _ _
            (endsType_cons (by decide) (by decide) _) (endsType_cons (by decide) (by decide) _)
            (List.cons.inj h).2
          exact ⟨rfl, (List.cons.inj hclose).2⟩
  map key value hkey hvalue htype := by
    cases htype with
    | map hk hv =>
      refine coreSelfDelimiting_of_behind rfl fun type' htype' hform rest rest' _ _ h => ?_
      cases hform with
      | map _ _ key' value' =>
        cases htype' with
        | map hk' hv' =>
          obtain ⟨rfl, hcomma⟩ := (hkey hk).selfDelimiting key' hk' _ _
            (endsType_cons (by decide) (by decide) _) (endsType_cons (by decide) (by decide) _)
            (List.cons.inj h).2
          obtain ⟨rfl, hclose⟩ := (hvalue hv).selfDelimiting value' hv' _ _
            (endsType_cons (by decide) (by decide) _) (endsType_cons (by decide) (by decide) _)
            (List.cons.inj (List.cons.inj hcomma).2).2
          exact ⟨rfl, (List.cons.inj hclose).2⟩
  array element helement htype := by
    cases htype with
    | array htype => exact helement htype
  struct allowMissing fields hfields htype := by
    cases htype with
    | struct hnames htypes =>
      exact Layout.selfDelimiting_struct (List.forall_mem_map.mp hnames) fun f hf =>
        (hfields f hf (htypes f hf)).selfDelimiting
  tuple elements helements htype := by
    cases htype with
    | tuple htypes =>
      exact Layout.selfDelimiting_tuple fun type htype =>
        (helements type htype (htypes type htype)).selfDelimiting

theorem WordNamed.selfDelimiting {type : TypeExpr} (h : type.WordNamed) : type.SelfDelimiting :=
  (selfDelimiting_hereditary.type type h).selfDelimiting

theorem text_injective {type type' : TypeExpr} (h : type.WordNamed) (h' : type'.WordNamed)
    (htext : type.text = type'.text) : type = type' := by
  have hchars : type.text.toList ++ [] = type'.text.toList ++ [] := by rw [htext]
  exact (h.selfDelimiting type' h' [] [] endsType_nil endsType_nil hchars).1

end TypeExpr

/-! ### Definitions -/

/-- What stands under a key in the JSON value of a definition. -/
def Definition.entry? (d : Definition) (key : String) : Option Json :=
  match d.toJson with
  | .object members => Json.last? members key
  | _ => none

/-- A definition shows the written form of its type. -/
theorem Definition.entry?_type (d : Definition) : d.entry? "type" = some (.string d.type.text) := by
  obtain ⟨name, version, description, deprecated, origin, type⟩ := d
  cases description with
  | none => rfl
  | some description => rfl

/-- **The written form tells types apart.** Two types whose fields and variants have words for
names are written alike if and only if they are the same. So it is for the types that two
definitions show as JSON. -/
theorem TypeExpr.text_tells_types_apart :
    (∀ type type' : TypeExpr, type.WordNamed → type'.WordNamed →
      (type.text = type'.text ↔ type = type')) ∧
    (∀ d : Definition, d.entry? "type" = some (.string d.type.text)) ∧
    ∀ d d' : Definition, d.type.WordNamed → d'.type.WordNamed →
      (d.entry? "type" = d'.entry? "type" ↔ d.type = d'.type) := by
  have hinjective (type type' : TypeExpr) (h : type.WordNamed) (h' : type'.WordNamed) :
      type.text = type'.text ↔ type = type' :=
    ⟨text_injective h h', congrArg text⟩
  refine ⟨hinjective, Definition.entry?_type, fun d d' h h' => ?_⟩
  rw [d.entry?_type, d'.entry?_type, Option.some.injEq, Json.string.injEq]
  exact hinjective d.type d'.type h h'

/-- A lenient struct and a strict one are written differently as payloads, as are a variant that
holds a struct without fields and one that holds nothing. -/
theorem TypeExpr.text_tells_types_apart_payloads :
    let type (payload : Option Layout) : TypeExpr :=
      array (enum [("Unit", none), ("Pair_2", payload)])
    let strict : Option Layout := some (.struct false [])
    let lenient : Option Layout := some (.struct true [])
    (type strict).WordNamed ∧ (type lenient).WordNamed ∧ (type none).WordNamed ∧
      (type strict).text ≠ (type lenient).text ∧ (type strict).text ≠ (type none).text := by
  intro type strict lenient
  have hnamed (payload : Option Layout) (hpayload : ∀ L, payload = some L → L.WordNamed) :
      (type payload).WordNamed := by
    have hnames : ∀ name ∈ ["Unit", "Pair_2"], Text.IsWord name := by decide
    refine .array (.enum hnames (List.forall_mem_cons.mpr ⟨fun L hL => ?_, ?_⟩))
    · cases hL
    · exact List.forall_mem_singleton.mpr hpayload
  have hempty (allowMissing : Bool) :
      ∀ L, some (Layout.struct allowMissing []) = some L → L.WordNamed := by
    rintro L ⟨⟩
    exact .struct (by simp) (by simp)
  have hstrict := hnamed strict (hempty false)
  have hlenient := hnamed lenient (hempty true)
  have hnone := hnamed none fun L hL => by cases hL
  obtain ⟨htells, -, -⟩ := text_tells_types_apart
  refine ⟨hstrict, hlenient, hnone, fun h => ?_, fun h => ?_⟩
  · have htype := (htells _ _ hstrict hlenient).mp h
    simp [type, strict, lenient] at htype
  · have htype := (htells _ _ hstrict hnone).mp h
    simp [type, strict] at htype

end SborSchema
