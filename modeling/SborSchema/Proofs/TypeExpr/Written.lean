/-
# How types are written

A type that is no array is written with a keyword, the name of a leaf or the word
of a composite, and a composite has its parts in brackets behind it. The keyword
is a word and tells how the type is built. An array has its brackets behind what
it is an array of, so that they are the last thing to be read.

Key definitions: `TypeExpr.keyword`, `TypeExpr.behind`, `TypeExpr.core`, `TypeExpr.rank`,
`TypeExpr.SameForm`.
Key theorems: `TypeExpr.toList_text_append`, `TypeExpr.keyword_behind_inj`,
`TypeExpr.toList_text_core`, `TypeExpr.SameForm.of_keyword_eq`.
-/
import SborSchema.Proofs.Text.Parts

namespace SborSchema

/-! ### The characters of a written type -/

/-- A field of a struct, as it is written. -/
def fieldChars (f : String × TypeExpr) : List Char := f.1.toList ++ ':' :: ' ' :: f.2.text.toList

/-- What stands behind the name of a variant. -/
def payloadChars : Option Layout → List Char
  | none => []
  | some L => L.mark.toList ++ L.body.toList

/-- A variant of an enum, as it is written. -/
def variantChars (v : String × Option Layout) : List Char := v.1.toList ++ payloadChars v.2

theorem map_toList_fieldTexts : ∀ fields : List (String × TypeExpr),
    (fieldTexts fields).map String.toList = fields.map fieldChars
  | [] => rfl
  | (name, type) :: rest => by
    rw [fieldTexts, List.map_cons, List.map_cons, map_toList_fieldTexts rest]
    simp [fieldChars]

theorem map_toList_elementTexts : ∀ elements : List TypeExpr,
    (elementTexts elements).map String.toList = elements.map (·.text.toList)
  | [] => rfl
  | type :: rest => by
    rw [elementTexts, List.map_cons, List.map_cons, map_toList_elementTexts rest]

theorem map_toList_variantTexts : ∀ variants : List (String × Option Layout),
    (variantTexts variants).map String.toList = variants.map variantChars
  | [] => rfl
  | (name, none) :: rest => by
    rw [variantTexts, List.map_cons, List.map_cons, map_toList_variantTexts rest]
    simp [variantChars, payloadChars]
  | (name, some L) :: rest => by
    rw [variantTexts, List.map_cons, List.map_cons, map_toList_variantTexts rest]
    simp [variantChars, payloadChars]

namespace Layout

theorem toList_body_struct (allowMissing : Bool) (fields : List (String × TypeExpr))
    (rest : List Char) : (struct allowMissing fields).body.toList ++ rest =
      '\x7b' :: ([',', ' '].intercalate (fields.map fieldChars) ++ '\x7d' :: rest) := by
  rw [body, Text.listed, String.toList_append, String.toList_append, String.toList_intercalate,
    map_toList_fieldTexts, List.append_assoc, List.append_assoc]
  rfl

theorem toList_body_tuple (elements : List TypeExpr) (rest : List Char) :
    (tuple elements).body.toList ++ rest =
      '(' :: ([',', ' '].intercalate (elements.map (·.text.toList)) ++ ')' :: rest) := by
  rw [body, Text.listed, String.toList_append, String.toList_append, String.toList_intercalate,
    map_toList_elementTexts, List.append_assoc, List.append_assoc]
  rfl

theorem word_struct_ne_tuple (fields : List (String × TypeExpr)) (elements : List TypeExpr) :
    ∀ allowMissing, (struct allowMissing fields).word ≠ (tuple elements).word
  | false => (by decide : "struct" ≠ "tuple")
  | true => (by decide : "struct_allowing_missing" ≠ "tuple")

theorem word_struct_inj {fields fields' : List (String × TypeExpr)} :
    ∀ {a a' : Bool}, (struct a fields).word = (struct a' fields').word → a = a'
  | false, false, _ | true, true, _ => rfl
  | false, true, h => absurd h (by decide : "struct" ≠ "struct_allowing_missing")
  | true, false, h => absurd h.symm (by decide : "struct" ≠ "struct_allowing_missing")

/-- The first character of a layout that stands as a payload. -/
def opening : Layout → Char
  | struct false _ => '\x7b'
  | struct true _ => '?'
  | tuple _ => '('

theorem exists_payload_eq_cons (rest : List Char) : ∀ L : Layout,
    ∃ cs, payloadChars (some L) ++ rest = L.opening :: cs
  | struct false fields => ⟨_, by
    rw [payloadChars, List.append_assoc, toList_body_struct]
    rfl⟩
  | struct true fields => by
    have hmark : (struct true fields).mark.toList = ['?'] := (by decide : "?".toList = ['?'])
    rw [payloadChars, hmark]
    exact ⟨_, rfl⟩
  | tuple elements => ⟨_, by
    rw [payloadChars, List.append_assoc, toList_body_tuple]
    rfl⟩

theorem opening_ne : ∀ L : Layout, L.opening ≠ ' ' ∧ L.opening ≠ '\x7d' ∧
    Text.isWordChar L.opening = false
  | struct false _ => (by decide : '\x7b' ≠ ' ' ∧ '\x7b' ≠ '\x7d' ∧ Text.isWordChar '\x7b' = false)
  | struct true _ => (by decide : '?' ≠ ' ' ∧ '?' ≠ '\x7d' ∧ Text.isWordChar '?' = false)
  | tuple _ => (by decide : '(' ≠ ' ' ∧ '(' ≠ '\x7d' ∧ Text.isWordChar '(' = false)

/-- The first character of a payload tells which layout follows. -/
theorem word_eq_of_opening_eq : ∀ {L L' : Layout}, L.opening = L'.opening →
    L.word = L'.word ∧ L.mark = L'.mark
  | struct false _, struct false _, _ | struct true _, struct true _, _ | tuple _, tuple _, _ =>
    ⟨rfl, rfl⟩
  | struct false _, struct true _, h | struct true _, struct false _, h
  | struct false _, tuple _, h | tuple _, struct false _, h
  | struct true _, tuple _, h | tuple _, struct true _, h => by simp [opening] at h

end Layout

namespace TypeExpr

/-- The word that a type starts with. -/
def keyword : TypeExpr → String
  | leaf l => l.name
  | layout L => L.word
  | enum _ => "enum"
  | option _ => "option"
  | map .. => "map"
  | array element => element.keyword

/-- What stands behind the keyword of a type, in front of `rest`. -/
def behind : TypeExpr → List Char → List Char
  | leaf _, rest => rest
  | layout L, rest => L.body.toList ++ rest
  | enum variants, rest =>
    '\x7b' :: ([' ', '|', ' '].intercalate (variants.map variantChars) ++ '\x7d' :: rest)
  | option inner, rest => '<' :: (inner.text.toList ++ '>' :: rest)
  | map key value, rest =>
    '<' :: (key.text.toList ++ ',' :: ' ' :: (value.text.toList ++ '>' :: rest))
  | array element, rest => element.behind ('[' :: ']' :: rest)

/-- A type is written with its keyword in front. -/
theorem toList_text_append : ∀ (type : TypeExpr) (rest : List Char),
    type.text.toList ++ rest = type.keyword.toList ++ type.behind rest
  | leaf _, _ => rfl
  | layout L, rest => by
    rw [text, String.toList_append, List.append_assoc]
    rfl
  | enum variants, rest => by
    have hopen : "enum\x7b".toList = "enum".toList ++ ['\x7b'] := by decide
    rw [text, String.toList_append, String.toList_append, String.toList_intercalate,
      map_toList_variantTexts, hopen]
    simp only [List.append_assoc]
    rfl
  | option inner, rest => by
    have hopen : "option<".toList = "option".toList ++ ['<'] := by decide
    rw [text, String.toList_append, String.toList_append, hopen]
    simp only [List.append_assoc]
    rfl
  | map key value, rest => by
    have hopen : "map<".toList = "map".toList ++ ['<'] := by decide
    simp only [text, String.toList_append, hopen, List.append_assoc]
    rfl
  | array element, rest => by
    rw [text, String.toList_append, List.append_assoc, keyword, behind,
      ← toList_text_append element]
    rfl

/-! ### Keywords -/

theorem isWord_keyword : ∀ type : TypeExpr, Text.IsWord type.keyword
  | leaf l => by cases l <;> decide
  | layout (.struct false _) => (by decide : Text.IsWord "struct")
  | layout (.struct true _) => (by decide : Text.IsWord "struct_allowing_missing")
  | layout (.tuple _) => (by decide : Text.IsWord "tuple")
  | enum _ => (by decide : Text.IsWord "enum")
  | option _ => (by decide : Text.IsWord "option")
  | map .. => (by decide : Text.IsWord "map")
  | array element => element.isWord_keyword

theorem leavesWord_behind {rest : List Char} (hrest : Text.LeavesWord rest) :
    ∀ type : TypeExpr, Text.LeavesWord (type.behind rest)
  | leaf _ => hrest
  | layout (.struct allowMissing fields) => by
    rw [behind, Layout.toList_body_struct]
    exact Text.leavesWord_cons (by decide) _
  | layout (.tuple elements) => by
    rw [behind, Layout.toList_body_tuple]
    exact Text.leavesWord_cons (by decide) _
  | enum _ => Text.leavesWord_cons (by decide) _
  | option _ => Text.leavesWord_cons (by decide) _
  | map .. => Text.leavesWord_cons (by decide) _
  | array element => by
    rw [behind]
    exact leavesWord_behind (Text.leavesWord_cons (by decide) _) element

/-- The keyword of a written type can be told from what stands behind it. -/
theorem keyword_behind_inj {type type' : TypeExpr} {rest rest' : List Char}
    (hrest : Text.LeavesWord rest) (hrest' : Text.LeavesWord rest')
    (h : type.text.toList ++ rest = type'.text.toList ++ rest') :
    type.keyword = type'.keyword ∧ type.behind rest = type'.behind rest' := by
  rw [toList_text_append, toList_text_append] at h
  exact Text.word_append_inj type.isWord_keyword type'.isWord_keyword
    (leavesWord_behind hrest type) (leavesWord_behind hrest' type') h

/-- A written type starts with a character of a word. -/
theorem head?_text_append {c : Char} (hc : Text.isWordChar c = false) (type : TypeExpr)
    (rest : List Char) : (type.text.toList ++ rest).head? ≠ some c := by
  rw [toList_text_append]
  exact Text.head?_word_append type.isWord_keyword hc _

/-! ### Arrays -/

/-- What is left of a type without the arrays around it. -/
def core : TypeExpr → TypeExpr
  | array element => element.core
  | type => type

/-- How many arrays a type has around it. -/
def rank : TypeExpr → Nat
  | array element => element.rank + 1
  | _ => 0

/-- Puts arrays around a type. -/
def arrays : Nat → TypeExpr → TypeExpr
  | 0, type => type
  | k + 1, type => array (arrays k type)

/-- The brackets of arrays in front of `rest`. -/
def brackets : Nat → List Char → List Char
  | 0, rest => rest
  | k + 1, rest => '[' :: ']' :: brackets k rest

theorem arrays_rank_core : ∀ type : TypeExpr, arrays type.rank type.core = type
  | leaf _ | layout _ | enum _ | option _ | map .. => rfl
  | array element => congrArg array element.arrays_rank_core

theorem rank_core : ∀ type : TypeExpr, type.core.rank = 0
  | leaf _ | layout _ | enum _ | option _ | map .. => rfl
  | array element => element.rank_core

theorem brackets_concat (rest : List Char) : ∀ k : Nat,
    brackets k ('[' :: ']' :: rest) = brackets (k + 1) rest
  | 0 => rfl
  | k + 1 => by
    rw [brackets, brackets_concat rest k]
    rfl

/-- An array is written with its brackets behind. -/
theorem toList_text_core : ∀ (type : TypeExpr) (rest : List Char),
    type.text.toList ++ rest = type.core.text.toList ++ brackets type.rank rest
  | leaf _, _ | layout _, _ | enum _, _ | option _, _ | map .., _ => rfl
  | array element, rest => by
    have ih := toList_text_core element ('[' :: ']' :: rest)
    rw [brackets_concat] at ih
    rw [text, String.toList_append, List.append_assoc]
    exact ih

/-- What may follow a type: nothing that could belong to it. -/
def EndsType (rest : List Char) : Prop := Text.LeavesWord rest ∧ rest.head? ≠ some '['

theorem endsType_nil : EndsType [] := ⟨Text.leavesWord_nil, nofun⟩

theorem endsType_cons {c : Char} (hword : Text.isWordChar c = false) (hopen : c ≠ '[')
    (rest : List Char) : EndsType (c :: rest) :=
  ⟨Text.leavesWord_cons hword rest, fun h => hopen (Option.some.inj h)⟩

theorem leavesWord_brackets {rest : List Char} (hrest : Text.LeavesWord rest) : ∀ k : Nat,
    Text.LeavesWord (brackets k rest)
  | 0 => hrest
  | _ + 1 => Text.leavesWord_cons (by decide) _

/-- The brackets of arrays can be told from what follows them. -/
theorem brackets_inj {rest rest' : List Char} (hrest : EndsType rest) (hrest' : EndsType rest') :
    ∀ {k k' : Nat}, brackets k rest = brackets k' rest' → k = k' ∧ rest = rest'
  | 0, 0, h => ⟨rfl, h⟩
  | 0, k' + 1, h => absurd (congrArg List.head? h) hrest.2
  | k + 1, 0, h => absurd (congrArg List.head? h).symm hrest'.2
  | k + 1, k' + 1, h => by
    obtain ⟨hk, hrests⟩ := brackets_inj hrest hrest' (List.cons.inj (List.cons.inj h).2).2
    exact ⟨congrArg (· + 1) hk, hrests⟩

/-! ### Types of one form -/

/-- The types are built by the same constructor, and are the same if they have no parts. -/
inductive SameForm : TypeExpr → TypeExpr → Prop
  | leaf (l : LeafType) : SameForm (.leaf l) (.leaf l)
  | layout {L L' : Layout} (hword : L.word = L'.word) : SameForm (.layout L) (.layout L')
  | enum (variants variants' : List (String × Option Layout)) :
      SameForm (.enum variants) (.enum variants')
  | option (inner inner' : TypeExpr) : SameForm (.option inner) (.option inner')
  | map (key value key' value' : TypeExpr) : SameForm (.map key value) (.map key' value')

theorem name_injective {l l' : LeafType} (h : l.name = l'.name) : l = l' := by
  have hname := LeafType.ofName?_name l
  rw [h, LeafType.ofName?_name l'] at hname
  exact (Option.some.inj hname).symm

/-- No leaf has the word of a composite for its name. -/
theorem name_ne (l : LeafType) : l.name ≠ "struct" ∧ l.name ≠ "struct_allowing_missing" ∧
    l.name ≠ "tuple" ∧ l.name ≠ "enum" ∧ l.name ≠ "option" ∧ l.name ≠ "map" := by
  cases l <;> decide

theorem name_ne_word (l : LeafType) : ∀ L : Layout, l.name ≠ L.word
  | .struct false _ => (name_ne l).1
  | .struct true _ => (name_ne l).2.1
  | .tuple _ => (name_ne l).2.2.1

theorem word_ne : ∀ L : Layout, L.word ≠ "enum" ∧ L.word ≠ "option" ∧ L.word ≠ "map"
  | .struct false _ =>
    (by decide : "struct" ≠ "enum" ∧ "struct" ≠ "option" ∧ "struct" ≠ "map")
  | .struct true _ =>
    (by decide : "struct_allowing_missing" ≠ "enum" ∧ "struct_allowing_missing" ≠ "option" ∧
      "struct_allowing_missing" ≠ "map")
  | .tuple _ => (by decide : "tuple" ≠ "enum" ∧ "tuple" ≠ "option" ∧ "tuple" ≠ "map")

/-- **The keyword tells how a type is built that is no array.** -/
theorem SameForm.of_keyword_eq {type type' : TypeExpr} (hrank : type.rank = 0)
    (hrank' : type'.rank = 0) (h : type.keyword = type'.keyword) : SameForm type type' := by
  cases type with
  | leaf l =>
    obtain ⟨-, -, -, henum, hoption, hmap⟩ := name_ne l
    cases type' with
    | leaf l' =>
      obtain rfl := name_injective h
      exact .leaf l
    | layout L' => exact absurd h (name_ne_word l L')
    | enum => exact absurd h henum
    | option => exact absurd h hoption
    | map => exact absurd h hmap
    | array => cases hrank'
  | layout L =>
    obtain ⟨henum, hoption, hmap⟩ := word_ne L
    cases type' with
    | leaf l' => exact absurd h.symm (name_ne_word l' L)
    | layout L' => exact .layout h
    | enum => exact absurd h henum
    | option => exact absurd h hoption
    | map => exact absurd h hmap
    | array => cases hrank'
  | enum variants =>
    cases type' with
    | leaf l' => exact absurd h.symm (name_ne l').2.2.2.1
    | layout L' => exact absurd h.symm (word_ne L').1
    | enum variants' => exact .enum variants variants'
    | option => exact absurd h (by decide : "enum" ≠ "option")
    | map => exact absurd h (by decide : "enum" ≠ "map")
    | array => cases hrank'
  | option inner =>
    cases type' with
    | leaf l' => exact absurd h.symm (name_ne l').2.2.2.2.1
    | layout L' => exact absurd h.symm (word_ne L').2.1
    | option inner' => exact .option inner inner'
    | enum => exact absurd h (by decide : "option" ≠ "enum")
    | map => exact absurd h (by decide : "option" ≠ "map")
    | array => cases hrank'
  | map key value =>
    cases type' with
    | leaf l' => exact absurd h.symm (name_ne l').2.2.2.2.2
    | layout L' => exact absurd h.symm (word_ne L').2.2
    | map key' value' => exact .map key value key' value'
    | enum => exact absurd h (by decide : "map" ≠ "enum")
    | option => exact absurd h (by decide : "map" ≠ "option")
    | array => cases hrank'
  | array => cases hrank

end TypeExpr

end SborSchema
