/-
# The grammar of type names

A type name is the name of a leaf, a type name with brackets after it, or one
between `option<` and `>`, and blanks may stand around each of these. The reader
takes brackets off the ends of a text; it reads exactly the texts of the grammar,
each as the one type that it spells. The written form of a type of leaves, arrays
and options is one of its spellings, so the short form and the long form of such a
type are read alike.

Key definitions: `Text.Tight`, `TypeExpr.Spells`, `TypeExpr.Nameable`.
Key theorems: `Text.trim_of_tight`, `Text.exists_trim`, `TypeExpr.ofNameChars_of_spells`,
`TypeExpr.spells_of_ofNameChars`, `TypeExpr.Nameable.spells_text`, `TypeExpr.ofName_reads_grammar`.
-/
import Mathlib.Data.List.TakeWhile
import SborSchema.Proofs.Lists
import SborSchema.Proofs.TypeExpr.LongForm

namespace SborSchema

/-! ### Blanks around a text -/

namespace Text

variable {cs core before after : List Char}

/-- All characters of the text are blank. -/
def AllBlank (cs : List Char) : Prop := ∀ c ∈ cs, isBlank c = true

theorem allBlank_nil : AllBlank [] := by simp [AllBlank]

/-- The text neither begins nor ends with a blank. -/
structure Tight (cs : List Char) : Prop where
  first : ∀ c ∈ cs.head?, isBlank c = false
  last : ∀ c ∈ cs.getLast?, isBlank c = false

theorem dropWhile_blank (hbefore : AllBlank before) (hcore : ∀ c ∈ core.head?, isBlank c = false) :
    (before ++ core).dropWhile isBlank = core :=
  dropWhile_append_exact hbefore hcore

theorem head?_dropWhile_isBlank (cs : List Char) :
    ∀ c ∈ (cs.dropWhile isBlank).head?, isBlank c = false := by
  intro c hc
  have hnot := List.head?_dropWhile_not isBlank cs
  rwa [Option.mem_def.mp hc] at hnot

/-- Trimming takes blanks away on both sides of a text that has none there. -/
theorem trim_of_tight (hcore : Tight core) (hbefore : AllBlank before) (hafter : AllBlank after) :
    trim (before ++ core ++ after) = core := by
  have hafter' : AllBlank after.reverse := fun c hc => hafter c (List.mem_reverse.mp hc)
  rw [trim, List.append_assoc]
  cases core with
  | nil =>
    have hall : ∀ c ∈ before ++ after, isBlank c = true := List.forall_mem_append.mpr ⟨hbefore, hafter⟩
    rw [List.nil_append, List.dropWhile_eq_nil_iff.mpr hall]
    rfl
  | cons c rest =>
    have hfirst : ∀ d ∈ (c :: rest ++ after).head?, isBlank d = false := hcore.first
    have hlast : ∀ d ∈ (c :: rest).reverse.head?, isBlank d = false := by
      rw [List.head?_reverse]
      exact hcore.last
    rw [dropWhile_blank hbefore hfirst, List.reverse_append, dropWhile_blank hafter' hlast,
      List.reverse_reverse]

/-- What trimming takes away is blank, and it leaves no blank at the ends. -/
theorem exists_trim (cs : List Char) : ∃ before after, cs = before ++ trim cs ++ after ∧
    AllBlank before ∧ AllBlank after ∧ Tight (trim cs) := by
  have hrest : cs.dropWhile isBlank =
      trim cs ++ ((cs.dropWhile isBlank).reverse.takeWhile isBlank).reverse := by
    rw [trim, ← List.reverse_append, List.takeWhile_append_dropWhile, List.reverse_reverse]
  refine ⟨cs.takeWhile isBlank, ((cs.dropWhile isBlank).reverse.takeWhile isBlank).reverse, ?_,
    fun c hc => List.mem_takeWhile_imp hc,
    fun c hc => List.mem_takeWhile_imp (List.mem_reverse.mp hc), ?_, ?_⟩
  · rw [List.append_assoc, ← hrest, List.takeWhile_append_dropWhile]
  · intro c hc
    have hhead := head?_dropWhile_isBlank cs c
    rw [hrest, List.head?_append, Option.mem_def.mp hc] at hhead
    exact hhead rfl
  · rw [trim, List.getLast?_reverse]
    exact head?_dropWhile_isBlank _

/-- Blanks around a text do not matter to what is left of it. -/
theorem trim_between (hbefore : AllBlank before) (hafter : AllBlank after) :
    trim (before ++ cs ++ after) = trim cs := by
  obtain ⟨before', after', hcs, hbefore', hafter', htight⟩ := exists_trim cs
  have hsplit : before ++ cs ++ after = (before ++ before') ++ trim cs ++ (after' ++ after) := by
    conv_lhs => rw [hcs]
    simp only [List.append_assoc]
  rw [hsplit]
  exact trim_of_tight htight (List.forall_mem_append.mpr ⟨hbefore, hbefore'⟩)
    (List.forall_mem_append.mpr ⟨hafter', hafter⟩)

end Text

namespace TypeExpr

variable {cs cs' : List Char} {type : TypeExpr}

/-- The text spells the type: the grammar of type names. -/
inductive Spells : List Char → TypeExpr → Prop
  | leaf (l : LeafType) : Spells l.name.toList (.leaf l)
  | array {cs : List Char} {element : TypeExpr} (h : Spells cs element) :
      Spells (cs ++ ['[', ']']) (.array element)
  | option {cs : List Char} {inner : TypeExpr} (h : Spells cs inner) :
      Spells (['o', 'p', 't', 'i', 'o', 'n', '<'] ++ cs ++ ['>']) (.option inner)
  | blanks {before cs after : List Char} {type : TypeExpr} (hbefore : Text.AllBlank before)
      (hafter : Text.AllBlank after) (h : Spells cs type) : Spells (before ++ cs ++ after) type

/-- Only what is left after trimming counts. -/
theorem ofNameChars_congr (h : Text.trim cs = Text.trim cs') :
    ofNameChars cs = ofNameChars cs' := by
  cases harray : elementName? (Text.trim cs) with
  | some part =>
    have harray' : elementName? (Text.trim cs') = some part := h ▸ harray
    rw [ofNameChars_array harray, ofNameChars_array harray']
  | none =>
    have harray' : elementName? (Text.trim cs') = none := h ▸ harray
    cases hoption : innerName? (Text.trim cs) with
    | some part =>
      have hoption' : innerName? (Text.trim cs') = some part := h ▸ hoption
      rw [ofNameChars_option harray hoption, ofNameChars_option harray' hoption']
    | none =>
      have hoption' : innerName? (Text.trim cs') = none := h ▸ hoption
      rw [ofNameChars_other harray hoption, ofNameChars_other harray' hoption', h]

theorem elementName?_append (cs : List Char) : elementName? (cs ++ ['[', ']']) = some cs := by
  simp [elementName?]

/-- With brackets after it, a text is read as the array of what it is read as. -/
theorem ofNameChars_append_brackets (cs : List Char) :
    ofNameChars (cs ++ ['[', ']']) = (ofNameChars cs).map .array := by
  -- Trimming only takes blanks off the front, as the end is a bracket.
  have hblank : Text.AllBlank (cs.takeWhile Text.isBlank) := fun c hc => List.mem_takeWhile_imp hc
  have hsplit := List.takeWhile_append_dropWhile (p := Text.isBlank) (l := cs)
  have htight : Text.Tight (cs.dropWhile Text.isBlank ++ ['[', ']']) := by
    refine ⟨fun c hc => ?_, fun c hc => ?_⟩
    · have hhead := Text.head?_dropWhile_isBlank cs c
      cases hrest : cs.dropWhile Text.isBlank with
      | nil =>
        rw [hrest] at hc
        obtain rfl : '[' = c := Option.some.inj hc
        decide
      | cons d rest =>
        rw [hrest] at hc hhead
        exact hhead hc
    · rw [List.getLast?_append] at hc
      obtain rfl : ']' = c := Option.some.inj hc
      decide
  have htrim : Text.trim (cs ++ ['[', ']']) = cs.dropWhile Text.isBlank ++ ['[', ']'] := by
    have h := Text.trim_of_tight htight hblank Text.allBlank_nil
    rwa [List.append_nil, ← List.append_assoc, hsplit] at h
  have hrest : Text.trim (cs.dropWhile Text.isBlank) = Text.trim cs := by
    conv_rhs => rw [← hsplit, ← List.append_nil (_ ++ _)]
    exact (Text.trim_between hblank Text.allBlank_nil).symm
  rw [ofNameChars_array (htrim ▸ elementName?_append _), ofNameChars_congr hrest]

/-- Between the brackets of an option, a text is read as the option of what it is read as. -/
theorem ofNameChars_option_brackets (cs : List Char) :
    ofNameChars (['o', 'p', 't', 'i', 'o', 'n', '<'] ++ cs ++ ['>']) =
      (ofNameChars cs).map .option := by
  have htight : Text.Tight (['o', 'p', 't', 'i', 'o', 'n', '<'] ++ cs ++ ['>']) := by
    refine ⟨fun c hc => ?_, fun c hc => ?_⟩
    · obtain rfl : 'o' = c := Option.some.inj hc
      decide
    · rw [List.getLast?_append] at hc
      obtain rfl : '>' = c := Option.some.inj hc
      decide
  have htrim : Text.trim (['o', 'p', 't', 'i', 'o', 'n', '<'] ++ cs ++ ['>']) =
      ['o', 'p', 't', 'i', 'o', 'n', '<'] ++ cs ++ ['>'] := by
    have h := Text.trim_of_tight htight Text.allBlank_nil Text.allBlank_nil
    rwa [List.append_nil, List.nil_append] at h
  apply ofNameChars_option
  · rw [htrim]
    simp [elementName?]
  · rw [htrim]
    simp [innerName?]

/-- **A text that spells a type is read as it.** -/
theorem ofNameChars_of_spells (h : Spells cs type) : ofNameChars cs = .ok type := by
  induction h with
  | leaf l => exact ofName_name l
  | array _ ih => rw [ofNameChars_append_brackets, ih, Except.map]
  | option _ ih => rw [ofNameChars_option_brackets, ih, Except.map]
  | blanks hbefore hafter _ ih =>
    rw [ofNameChars_congr (Text.trim_between hbefore hafter), ih]

/-- What is left of a text after trimming spells a type only if the text does. -/
theorem Spells.of_trim (h : Spells (Text.trim cs) type) : Spells cs type := by
  obtain ⟨before, after, hcs, hbefore, hafter, -⟩ := Text.exists_trim cs
  rw [hcs]
  exact .blanks hbefore hafter h

/-- **A text that is read as a type spells it.** -/
theorem spells_of_ofNameChars : ∀ {type : TypeExpr}, ofNameChars cs = .ok type →
    Spells cs type := by
  induction cs using ofNameChars.induct with
  | case1 cs element helement hlength ih =>
    intro type h
    rw [ofNameChars_array helement] at h
    obtain ⟨inner, hinner, rfl⟩ := map_eq_ok.mp h
    apply Spells.of_trim
    rw [eq_of_elementName? helement]
    exact .array (ih hinner)
  | case2 cs hnone element helement hlength ih =>
    intro type h
    rw [ofNameChars_option hnone helement] at h
    obtain ⟨inner, hinner, rfl⟩ := map_eq_ok.mp h
    apply Spells.of_trim
    rw [eq_of_innerName? helement]
    exact .option (ih hinner)
  | case3 cs hnone hnone' | case4 cs hnone hnone' =>
    intro type h
    rw [ofNameChars_other hnone hnone'] at h
    split at h
    · next l hl =>
      obtain rfl := Except.ok.inj h
      have hname : l.name = String.ofList (Text.trim cs) := by
        simpa using List.find?_some hl
      apply Spells.of_trim
      have hchars : Text.trim cs = l.name.toList := by rw [hname, String.toList_ofList]
      rw [hchars]
      exact .leaf l
    · cases h

/-! ### The written form -/

/-- The type is made of leaves, arrays and options. -/
inductive Nameable : TypeExpr → Prop
  | leaf (l : LeafType) : Nameable (.leaf l)
  | array {element : TypeExpr} (h : Nameable element) : Nameable (.array element)
  | option {inner : TypeExpr} (h : Nameable inner) : Nameable (.option inner)

/-- Its written form spells the type. -/
theorem Nameable.spells_text (h : type.Nameable) : Spells type.text.toList type := by
  induction h with
  | leaf l => exact .leaf l
  | array _ ih =>
    rw [text, String.toList_append]
    exact .array ih
  | option _ ih =>
    rw [text, String.toList_append, String.toList_append]
    exact .option ih

theorem Nameable.enumsNonempty (h : type.Nameable) : type.EnumsNonempty := by
  induction h with
  | leaf l => exact .leaf l
  | array _ ih => exact .array ih
  | option _ ih => exact .option ih

/-- **Names are read by their grammar.** A text is read as a type if and only if it spells it,
and it spells one type at most. The written form of a type of leaves, arrays and options is
read as the type, as its long form is. -/
theorem ofName_reads_grammar :
    (∀ name type, ofName name = .ok type ↔ Spells name.toList type) ∧
    (∀ cs type type', Spells cs type → Spells cs type' → type = type') ∧
    ∀ type, Nameable type → ofName type.text = .ok type ∧
      ofYaml (.string type.text) = .ok type ∧ ofYaml type.toYaml = .ok type := by
  refine ⟨fun name type => ⟨spells_of_ofNameChars, ofNameChars_of_spells⟩,
    fun cs type type' h h' => ?_, fun type h => ?_⟩
  · exact Except.ok.inj ((ofNameChars_of_spells h).symm.trans (ofNameChars_of_spells h'))
  · have hname : ofName type.text = .ok type := ofNameChars_of_spells h.spells_text
    refine ⟨hname, ?_, readBack_hereditary.type type h.enumsNonempty⟩
    rw [ofYaml, hname]
    rfl

/-- An array of options of arrays, with blanks at all places and without. -/
theorem ofName_reads_grammar_nested :
    let type := array (option (array (.leaf .bool)))
    type.Nameable ∧ Spells " option<\tbool [] > []".toList type ∧
      ofName " option<\tbool [] > []" = .ok type ∧ ofName "option<bool[]>[]" = .ok type := by
  intro type
  have hnameable : type.Nameable := .array (.option (.array (.leaf .bool)))
  have hspace : Text.AllBlank [' '] := List.forall_mem_singleton.mpr (by decide)
  have htab : Text.AllBlank ['\t'] := List.forall_mem_singleton.mpr (by decide)
  have hspells : Spells " option<\tbool [] > []".toList type := by
    have hinner : Spells "\tbool [] ".toList (array (.leaf .bool)) :=
      .blanks Text.allBlank_nil hspace (.array (.blanks htab hspace (.leaf .bool)))
    exact .array (.blanks hspace hspace (.option hinner))
  obtain ⟨hread, -, htext⟩ := ofName_reads_grammar
  exact ⟨hnameable, hspells, (hread _ type).mpr hspells, (htext type hnameable).1⟩

end TypeExpr

end SborSchema
