/-
# The definitions of a stream of documents

A stream is read document by document, and of a document the first entry counts
whose key gives a name. So the definitions of a stream that is read are, in
order, those of the first named entries of its documents; a document without a
named entry is null. An entry that comes after the first one of its document is
passed over, so no definition is lost if and only if no document has two.

Key definitions: `Definition.namedEntries`, `Definition.Yields`.
Key theorems: `Definition.mem_namedEntries`, `Definition.ofYaml_eq_ok`,
`Definition.allOf_eq_ok`, `Definition.allOfText_yields`.
-/
import SborSchema.Definition.Document
import SborSchema.Proofs.Lists
import SborSchema.Proofs.Outcome

namespace SborSchema.Definition

/-- The entries at the top of a document whose keys give names, with these names. -/
def namedEntries : Yaml → List (String × Yaml)
  | .mapping entries => entries.filterMap fun e => (nameOfKey? e.1).map fun name => (name, e.2)
  | _ => []

/-- The definition has the name of the entry and is read from its value. -/
def Yields (entry : String × Yaml) (d : Definition) : Prop :=
  d.name = entry.1 ∧ ofBody entry.1 entry.2 = .ok d

/-- A key gives a name if it is a text that starts with the word for it; the name is what
follows, without the blanks around it. -/
theorem nameOfKey?_eq_some {key : Yaml} {name : String} :
    nameOfKey? key = some name ↔ ∃ rest, key.text? = some (String.ofList (keyword ++ rest)) ∧
      name = String.ofList (Text.trim rest) := by
  rw [nameOfKey?]
  cases key.text? with
  | none => simp
  | some text =>
    change (if keyword.isPrefixOf text.toList then _ else none) = some name ↔ _
    constructor
    · intro h
      split at h
      · next hkeyword =>
        obtain ⟨rest, hrest⟩ := List.isPrefixOf_iff_prefix.mp hkeyword
        refine ⟨rest, ?_, ?_⟩
        · rw [hrest, String.ofList_toList]
        · rw [← hrest, List.drop_left] at h
          exact (Option.some.inj h).symm
      · cases h
    · rintro ⟨rest, htext, rfl⟩
      obtain rfl := Option.some.inj htext
      rw [String.toList_ofList, if_pos (by simp), List.drop_left]
      rfl

/-- The named entries of a mapping are its entries under keys that start with the word; their
names are what follows, without blanks around them. -/
theorem mem_namedEntries {y : Yaml} {entry : String × Yaml} :
    entry ∈ namedEntries y ↔ ∃ entries key rest, y = .mapping entries ∧ (key, entry.2) ∈ entries ∧
      key.text? = some (String.ofList (keyword ++ rest)) ∧
      entry.1 = String.ofList (Text.trim rest) := by
  obtain ⟨name, value⟩ := entry
  cases y with
  | mapping entries =>
    simp only [namedEntries, List.mem_filterMap, Option.map_eq_some_iff, Prod.mk.injEq,
      nameOfKey?_eq_some, Prod.exists, Yaml.mapping.injEq]
    constructor
    · rintro ⟨key, _, hmem, _, ⟨rest, htext, rfl⟩, rfl, rfl⟩
      exact ⟨entries, key, rest, rfl, hmem, htext, rfl⟩
    · rintro ⟨_, key, rest, rfl, hmem, htext, hname⟩
      exact ⟨key, value, hmem, name, ⟨rest, htext, hname⟩, rfl, rfl⟩
  | null | bool | number | string | sequence | tagged => simp [namedEntries]

/-! ### One document -/

theorem namedEntry?_eq_head? (entries : List (Yaml × Yaml)) :
    namedEntry? entries = (namedEntries (.mapping entries)).head? := by
  induction entries with
  | nil => rfl
  | cons e rest ih =>
    obtain ⟨key, value⟩ := e
    rw [ namedEntry?, namedEntries]
    cases hkey : nameOfKey? key with
    | none =>
      rw [List.filterMap_cons_none (by simp [hkey])]
      exact ih
    | some name =>
      simp only [List.filterMap_cons, hkey, Option.map_some, List.head?_cons]

/-- A definition has the name that it is read under. -/
theorem name_ofBody {name : String} {y : Yaml} {d : Definition} (h : ofBody name y = .ok d) :
    d.name = name := by
  obtain ⟨body, -, h⟩ := bind_eq_ok.mp h
  obtain ⟨type, -, h⟩ := bind_eq_ok.mp h
  obtain rfl := Except.ok.inj h
  rfl

/-- A document that is read yields the definition of its first named entry. -/
theorem ofYaml_eq_ok {y : Yaml} {d : Definition} (h : ofYaml y = .ok d) :
    ∃ entry, (namedEntries y).head? = some entry ∧ Yields entry d := by
  cases y with
  | mapping entries =>
    rw [ofYaml, namedEntry?_eq_head?] at h
    cases hfirst : (namedEntries (.mapping entries)).head? with
    | none =>
      rw [hfirst] at h
      cases h
    | some entry =>
      simp only [hfirst] at h
      split at h
      · cases h
      · exact ⟨entry, rfl, name_ofBody h, h⟩
  | null | bool | number | string | sequence | tagged => cases h

theorem namedEntries_of_isNull {y : Yaml} (h : y.isNull = true) : namedEntries y = [] := by
  cases y with
  | mapping entries => cases h
  | null | bool | number | string | sequence | tagged => rfl

/-! ### The stream -/

/-- The definitions of documents are those of their first named entries, in order; a document
without one is null. -/
theorem allOf_eq_ok : ∀ {outcomes : List (Except Yaml.Fault Yaml)} {ds : List Definition},
    allOf outcomes = .ok ds → ∃ docs : List Yaml, outcomes = docs.map .ok ∧
      List.Forall₂ Yields (docs.filterMap fun y => (namedEntries y).head?) ds ∧
      ∀ y ∈ docs, namedEntries y = [] ↔ y.isNull = true
  | [], ds, h => by
    obtain rfl := Except.ok.inj h
    exact ⟨[], rfl, .nil, by simp⟩
  | .error f :: _, ds, h => by cases h
  | .ok y :: outcomes, ds, h => by
    rw [allOf] at h
    by_cases hnull : y.isNull = true
    · rw [if_pos hnull] at h
      obtain ⟨docs, rfl, hyields, hdocs⟩ := allOf_eq_ok h
      have hnone := namedEntries_of_isNull hnull
      refine ⟨y :: docs, rfl, ?_, List.forall_mem_cons.mpr ⟨by simp [hnone, hnull], hdocs⟩⟩
      rwa [List.filterMap_cons_none (by rw [hnone]; rfl)]
    · rw [if_neg hnull] at h
      obtain ⟨d, hd, h⟩ := bind_eq_ok.mp h
      obtain ⟨ds, hds, h⟩ := bind_eq_ok.mp h
      obtain rfl := Except.ok.inj h
      obtain ⟨docs, rfl, hyields, hdocs⟩ := allOf_eq_ok hds
      obtain ⟨entry, hfirst, hentry⟩ := ofYaml_eq_ok hd
      have hsome : namedEntries y ≠ [] := fun hnil => by simp [hnil] at hfirst
      refine ⟨y :: docs, rfl, ?_, List.forall_mem_cons.mpr ⟨by simp [hsome, hnull], hdocs⟩⟩
      simp only [List.filterMap_cons, hfirst]
      exact .cons hentry hyields

/-- What a map gives on the documents of a text, from what it gives on the outcomes of reading
them. -/
theorem map_of_documentsOf {α : Type} {text : String} {docs : List Yaml} {f : Yaml → α} {l : List α}
    (hdocs : Yaml.documentsOf text = docs.map .ok)
    (h : ((Yaml.documentsOf text).map fun o => o.toOption.map f) = l.map some) :
    docs.map f = l := by
  rw [hdocs, List.map_map] at h
  refine List.map_injective_iff.mpr (Option.some_injective _) ?_
  simpa [Function.comp_def, Except.toOption] using h

/-- **The definitions of a stream are those of the first named entries of its documents**, in
order. An entry is named if its key starts with the word for it, by what follows without
blanks around it; a document without a named entry is null. So every named entry yields a
definition exactly if no document has two of them. -/
theorem allOfText_yields {text : String} {ds : List Definition} (h : allOfText text = .ok ds) :
    ∃ docs : List Yaml, Yaml.documentsOf text = docs.map .ok ∧
      List.Forall₂ Yields (docs.filterMap fun y => (namedEntries y).head?) ds ∧
      (∀ y ∈ docs, ∀ entry, entry ∈ namedEntries y ↔ ∃ entries key rest, y = .mapping entries ∧
        (key, entry.2) ∈ entries ∧ key.text? = some (String.ofList ("schema ".toList ++ rest)) ∧
        entry.1 = String.ofList (Text.trim rest)) ∧
      (∀ y ∈ docs, namedEntries y = [] ↔ y.isNull = true) ∧
      (List.Forall₂ Yields (docs.flatMap namedEntries) ds ↔
        ∀ y ∈ docs, (namedEntries y).length ≤ 1) := by
  obtain ⟨docs, hdocs, hyields, hnull⟩ := allOf_eq_ok h
  refine ⟨docs, hdocs, hyields, fun y _ entry => mem_namedEntries, hnull, fun hall => ?_,
    fun hone => ?_⟩
  · exact length_le_one_of_flatMap (hall.length_eq.trans hyields.length_eq.symm)
  · rwa [flatMap_eq_filterMap_head? hone]

/-- Two documents, with an empty one between them, yield two definitions; another key is
passed over, and the blanks around a name are not part of it. -/
theorem allOfText_yields_two :
    ∃ (docs : List Yaml) (ds : List Definition),
      Yaml.documentsOf ("x: 1\nschema  A :\n  version: 1\n  type: bool\n---\n---\n" ++
        "schema B:\n  version: 2\n  type: string[]\n") = docs.map .ok ∧
      docs.length = 3 ∧ ds.map (·.name) = ["A", "B"] ∧
      List.Forall₂ Yields (docs.flatMap namedEntries) ds := by
  set text := "x: 1\nschema  A :\n  version: 1\n  type: bool\n---\n---\n" ++
    "schema B:\n  version: 2\n  type: string[]\n"
  obtain ⟨ds, hds, hnames⟩ := exists_ok_of_toOption_map (x := allOfText text)
    (g := List.map (·.name)) (b := ["A", "B"]) (by decide +kernel)
  have hentries : ((Yaml.documentsOf text).map fun o => o.toOption.map fun y =>
      (namedEntries y).length) = [some 1, some 0, some 1] := by
    decide +kernel
  obtain ⟨docs, hdocs, -, -, -, hall⟩ := allOfText_yields hds
  have hlengths : docs.map (fun y => (namedEntries y).length) = [1, 0, 1] :=
    map_of_documentsOf hdocs hentries
  refine ⟨docs, ds, hdocs, ?_, hnames, hall.mpr fun y hy => ?_⟩
  · simpa using congrArg List.length hlengths
  · have hmem : (namedEntries y).length ∈ [1, 0, 1] := hlengths ▸ List.mem_map_of_mem hy
    simp only [List.mem_cons, List.not_mem_nil, or_false] at hmem
    omega

/-- A document with two named entries is read, and yields the first definition only. -/
theorem allOfText_second_entry_lost :
    ∃ (docs : List Yaml) (ds : List Definition),
      allOfText "schema A:\n  version: 1\n  type: bool\nschema B:\n  version: 1\n  type: string\n" =
        .ok ds ∧
      Yaml.documentsOf
        "schema A:\n  version: 1\n  type: bool\nschema B:\n  version: 1\n  type: string\n" =
        docs.map .ok ∧
      (docs.flatMap namedEntries).map (·.1) = ["A", "B"] ∧ ds.map (·.name) = ["A"] := by
  set text := "schema A:\n  version: 1\n  type: bool\nschema B:\n  version: 1\n  type: string\n"
  obtain ⟨ds, hds, hnames⟩ := exists_ok_of_toOption_map (x := allOfText text)
    (g := List.map (·.name)) (b := ["A"]) (by decide +kernel)
  have hentries : (Yaml.documentsOf text).map (fun o => o.toOption.map fun y =>
      (namedEntries y).map (·.1)) = [some ["A", "B"]] := by
    decide +kernel
  obtain ⟨docs, hdocs, -⟩ := allOf_eq_ok hds
  have hentryNames : docs.map (fun y => (namedEntries y).map (·.1)) = [["A", "B"]] :=
    map_of_documentsOf hdocs hentries
  refine ⟨docs, ds, hds, hdocs, ?_, hnames⟩
  rw [List.map_flatMap, List.flatMap_def, hentryNames]
  rfl

end SborSchema.Definition
