/-
# Which definitions are stored

Definitions are stored one after the other up to the first that is refused. So
all of them are stored if and only if each has a name and version of its own
that nothing is stored under (`Registry.Fresh`). Files are read one after the
other, and loading stops at the first that is out of order as a whole, or in the
first with a definition whose name and version are taken (`Registry.Stops`); what
comes before the fault is stored, and nothing else. If the files of a directory cannot
be found, nothing is stored at all.

Key definitions: `Registry.Fresh`, `Registry.Taken`, `Registry.ContentHolds`, `Registry.Stops`,
`Registry.loadContents`, `FileTree.Holds`.
Key theorems: `Registry.fresh_cons`, `Registry.fresh_append`, `Registry.run_loadContents_ok`,
`Registry.run_loadContents_stops`, `Registry.whole_or_stops`, `Registry.definitionFiles_eq_ok`,
`Registry.loadDirectory_of_definitionFiles`.
-/
import SborSchema.Proofs.Outcome
import SborSchema.Proofs.Registry
import SborSchema.Registry.Loading

namespace SborSchema

/-- The file holds a text that is read as the definitions. -/
def FileTree.Holds (file : FileTree) (ds : List Definition) : Prop :=
  ∃ text, file.content = .ok text ∧ Definition.allOfText text = .ok ds

namespace Registry

/-- The definitions have names and versions of their own, under which nothing is stored. -/
def Fresh (r : Registry) (ds : List Definition) : Prop :=
  (ds.map Definition.key).Nodup ∧ ∀ d ∈ ds, r.find? d.name d.version = none

variable {r : Registry} {d : Definition} {ds ds' : List Definition}

theorem fresh_nil : Fresh r [] := ⟨List.nodup_nil, by simp⟩

theorem fresh_empty : Fresh empty ds ↔ (ds.map Definition.key).Nodup :=
  and_iff_left fun _ _ => rfl

/-- After an offer, nothing is stored under a name and version that nothing was stored under
before and that are not those of the offered definition. -/
theorem find?_offer_eq_none {name : String} {version : Nat} :
    (r.offer d).find? name version = none ↔
      r.find? name version = none ∧ (name, version) ≠ d.key := by
  rw [find?_offer, Option.or_eq_none_iff, firstOf_singleton]
  simp

/-- The first definition of a list has to be fresh, and the others after it. -/
theorem fresh_cons :
    Fresh r (d :: ds) ↔ r.find? d.name d.version = none ∧ Fresh (r.offer d) ds := by
  have hkeys : d.key ∉ ds.map Definition.key ↔ ∀ g ∈ ds, g.key ≠ d.key := by
    simp [eq_comm]
  simp only [Fresh, List.map_cons, List.nodup_cons, hkeys, List.forall_mem_cons,
    find?_offer_eq_none]
  constructor
  · rintro ⟨⟨hd, hnodup⟩, hfirst, hrest⟩
    exact ⟨hfirst, hnodup, fun g hg => ⟨hrest g hg, hd g hg⟩⟩
  · rintro ⟨hfirst, hnodup, hrest⟩
    exact ⟨⟨fun g hg => (hrest g hg).2, hnodup⟩, hfirst, fun g hg => (hrest g hg).1⟩

theorem fresh_append :
    Fresh r (ds ++ ds') ↔ Fresh r ds ∧ Fresh (ds.foldl offer r) ds' := by
  induction ds generalizing r with
  | nil => exact (and_iff_right fresh_nil).symm
  | cons d ds ih => rw [List.cons_append, fresh_cons, fresh_cons, ih, List.foldl_cons, and_assoc]

/-! ### Storing -/

/-- A definition is stored unless there is one of its name and version. -/
theorem run_store (d : Definition) (r : Registry) :
    (store d).run.run r =
      match r.add d with
      | .ok r' => (.ok (), r')
      | .error e => (.error (.duplicate e), r) := by
  have hget : (get : Loader Registry).run.run r = (.ok r, r) := rfl
  rw [store, run_bind_ok hget]
  cases r.add d <;> rfl

theorem run_store_ok (h : r.find? d.name d.version = none) :
    (store d).run.run r = (.ok (), r.offer d) := by
  rw [run_store, offer, add_eq_ok.mpr ⟨h, rfl⟩]

theorem run_store_error (h : r.find? d.name d.version ≠ none) :
    (store d).run.run r = (.error (.duplicate ⟨d.name, d.version⟩), r) := by
  rw [run_store, add_eq_error.mpr ⟨Option.isSome_iff_ne_none.mpr h, rfl⟩]

theorem run_addAll_ok : ∀ {r : Registry} {ds : List Definition}, Fresh r ds →
    (addAll ds).run.run r = (.ok (), ds.foldl offer r)
  | _, [], _ => rfl
  | _, d :: ds, h => by
    obtain ⟨hfirst, hrest⟩ := fresh_cons.mp h
    rw [addAll, run_bind_ok (run_store_ok hfirst), run_addAll_ok hrest, List.foldl_cons]

/-- There is a definition of the name and version, stored or among the definitions. -/
def Taken (r : Registry) (ds : List Definition) (d : Definition) : Prop :=
  (r.find? d.name d.version).isSome ∨ d.key ∈ ds.map Definition.key

theorem taken_iff : Taken r ds d ↔ (ds.foldl offer r).find? d.name d.version ≠ none := by
  have hfirst : (Definition.firstOf ds d.name d.version).isSome ↔ d.key ∈ ds.map Definition.key := by
    simp [Definition.firstOf, Definition.key]
  rw [Taken, find?_foldl_offer, ← Option.isSome_iff_ne_none, Option.isSome_or, Bool.or_eq_true,
    hfirst]

theorem taken_cons {g : Definition} : Taken r (g :: ds) d ↔ Taken (r.offer g) ds d := by
  rw [taken_iff, taken_iff, List.foldl_cons]

theorem taken_append : Taken r (ds ++ ds') d ↔ Taken (ds.foldl offer r) ds' d := by
  rw [taken_iff, taken_iff, List.foldl_append]

/-- Definitions that are not fresh have a first one that is not. -/
theorem exists_taken : ∀ {r : Registry} {ds : List Definition}, ¬ Fresh r ds →
    ∃ before d after, ds = before ++ d :: after ∧ Fresh r before ∧ Taken r before d
  | _, [], h => absurd fresh_nil h
  | r, d :: ds, h => by
    by_cases hfirst : r.find? d.name d.version = none
    · have hrest : ¬ Fresh (r.offer d) ds := fun hrest => h (fresh_cons.mpr ⟨hfirst, hrest⟩)
      obtain ⟨before, d', after, rfl, hbefore, htaken⟩ := exists_taken hrest
      exact ⟨d :: before, d', after, rfl, fresh_cons.mpr ⟨hfirst, hbefore⟩,
        taken_cons.mpr htaken⟩
    · exact ⟨[], d, ds, rfl, fresh_nil, taken_iff.mpr hfirst⟩

/-- Definitions are stored up to the first that is taken. -/
theorem run_addAll_taken : ∀ {r : Registry} {before : List Definition}, Fresh r before →
    Taken r before d → ∀ after, (addAll (before ++ d :: after)).run.run r =
      (.error (.duplicate ⟨d.name, d.version⟩), before.foldl offer r)
  | r, [], _, htaken, after => by
    have hstored : r.find? d.name d.version ≠ none := taken_iff.mp htaken
    rw [List.nil_append, addAll, run_bind_error (run_store_error hstored), List.foldl_nil]
  | _, b :: before, hfresh, htaken, after => by
    obtain ⟨hfirst, hrest⟩ := fresh_cons.mp hfresh
    rw [List.cons_append, addAll, run_bind_ok (run_store_ok hfirst),
      run_addAll_taken hrest (taken_cons.mp htaken), List.foldl_cons]

/-! ### Files -/

/-- What is read of a file is a text that is read as the definitions. -/
def ContentHolds (content : Except FileTree.Fault String) (ds : List Definition) : Prop :=
  ∃ text, content = .ok text ∧ Definition.allOfText text = .ok ds

/-- A text is read as one list of definitions at most. -/
theorem ContentHolds.unique {content : Except FileTree.Fault String} (h : ContentHolds content ds)
    (h' : ContentHolds content ds') : ds = ds' := by
  obtain ⟨text, htext, hds⟩ := h
  obtain ⟨text', htext', hds'⟩ := h'
  obtain rfl := Except.ok.inj (htext.symm.trans htext')
  exact Except.ok.inj (hds.symm.trans hds')

/-- What is read of the file at a path is out of order as a whole. -/
inductive ContentRefused (path : String) : Except FileTree.Fault String → Fault → Prop
  | unreadable (f : FileTree.Fault) : ContentRefused path (.error f) (.file f)
  | malformed {text : String} {f : DefinitionFault} (h : Definition.allOfText text = .error f) :
      ContentRefused path (.ok text) (.definition (some path) f)

/-- Loading stops at the fault, and the definitions before it were fresh. -/
inductive Stops (r : Registry) :
    List (String × Except FileTree.Fault String) → List Definition → Fault → Prop
  /-- A file is out of order as a whole. -/
  | file {before after : List (String × Except FileTree.Fault String)} {path : String}
      {content : Except FileTree.Fault String} {dss : List (List Definition)} {fault : Fault}
      (hbefore : List.Forall₂ (fun e ds => ContentHolds e.2 ds) before dss)
      (hfresh : Fresh r dss.flatten) (hfile : ContentRefused path content fault) :
      Stops r (before ++ (path, content) :: after) dss.flatten fault
  /-- In a file that is in order there is a definition whose name and version are taken. -/
  | definition {before after : List (String × Except FileTree.Fault String)} {path : String}
      {content : Except FileTree.Fault String} {dss : List (List Definition)}
      {ds ds' : List Definition} {d : Definition}
      (hbefore : List.Forall₂ (fun e ds => ContentHolds e.2 ds) before dss)
      (hfile : ContentHolds content (ds ++ d :: ds')) (hfresh : Fresh r (dss.flatten ++ ds))
      (htaken : Taken r (dss.flatten ++ ds) d) :
      Stops r (before ++ (path, content) :: after) (dss.flatten ++ ds)
        (.duplicate ⟨d.name, d.version⟩)

section Files

variable {content : Except FileTree.Fault String} {path : String} {fault : Fault}

theorem contentHolds_or_refused (path : String) (content : Except FileTree.Fault String) :
    (∃ ds, ContentHolds content ds) ∨ ∃ fault, ContentRefused path content fault := by
  cases content with
  | error f => exact .inr ⟨_, .unreadable f⟩
  | ok text =>
    cases h : Definition.allOfText text with
    | ok ds => exact .inl ⟨ds, text, rfl, h⟩
    | error f => exact .inr ⟨_, .malformed h⟩

theorem ContentRefused.not_holds (h : ContentRefused path content fault) :
    ¬ ContentHolds content ds := by
  rintro ⟨text, rfl, hds⟩
  cases h with
  | malformed h => cases h.symm.trans hds

/-- The definitions of a file are stored after its text is read. -/
theorem loadDocuments_of_holds (h : ContentHolds content ds) (path : String) :
    loadDocuments path content = (do addAll ds; return ds.length) := by
  obtain ⟨text, rfl, hds⟩ := h
  simp only [loadDocuments, hds]

theorem run_loadDocuments_ok (h : ContentHolds content ds) (hfresh : Fresh r ds) :
    (loadDocuments path content).run.run r = (.ok ds.length, ds.foldl offer r) := by
  rw [loadDocuments_of_holds h, run_bind_ok (run_addAll_ok hfresh)]
  rfl

theorem run_loadDocuments_taken (h : ContentHolds content (ds ++ d :: ds')) (hfresh : Fresh r ds)
    (htaken : Taken r ds d) : (loadDocuments path content).run.run r =
      (.error (.duplicate ⟨d.name, d.version⟩), ds.foldl offer r) := by
  rw [loadDocuments_of_holds h, run_bind_error (run_addAll_taken hfresh htaken ds')]

/-- A file that is out of order changes nothing. -/
theorem run_loadDocuments_refused (h : ContentRefused path content fault) :
    (loadDocuments path content).run.run r = (.error fault, r) := by
  cases h with
  | unreadable f => rfl
  | malformed h =>
    simp only [loadDocuments, h]
    rfl

end Files

/-! ### Several files -/

/-- Stores the definitions of what is read of several files, and counts them. -/
def loadContents : List (String × Except FileTree.Fault String) → Loader Nat
  | [] => return 0
  | (path, content) :: rest => do
    let count ← loadDocuments path content
    let others ← loadContents rest
    return count + others

section Several

variable {contents before : List (String × Except FileTree.Fault String)}
  {dss : List (List Definition)} {fault : Fault}

/-- **Files whose texts are in order are stored if their definitions are fresh.** -/
theorem run_loadContents_ok (h : List.Forall₂ (fun e ds => ContentHolds e.2 ds) contents dss) :
    ∀ {r : Registry}, Fresh r dss.flatten → (loadContents contents).run.run r =
      (.ok dss.flatten.length, dss.flatten.foldl offer r) := by
  induction h with
  | nil => exact fun _ => rfl
  | cons head _ ih =>
    intro r hfresh
    obtain ⟨hds, hrest⟩ := fresh_append.mp hfresh
    rw [loadContents, run_bind_ok (run_loadDocuments_ok head hds), run_bind_ok (ih hrest),
      List.flatten_cons, List.length_append, List.foldl_append]
    rfl

/-- After files that are stored, a fault further on stays the outcome. -/
theorem run_loadContents_append_error {rest : List (String × Except FileTree.Fault String)}
    {r' : Registry} (h : List.Forall₂ (fun e ds => ContentHolds e.2 ds) before dss) :
    ∀ {r : Registry}, Fresh r dss.flatten →
      (loadContents rest).run.run (dss.flatten.foldl offer r) = (.error fault, r') →
      (loadContents (before ++ rest)).run.run r = (.error fault, r') := by
  induction h with
  | nil => exact fun _ hrest => hrest
  | cons head _ ih =>
    intro r hfresh hrest
    obtain ⟨hds, hdss⟩ := fresh_append.mp hfresh
    rw [List.flatten_cons, List.foldl_append] at hrest
    rw [List.cons_append, loadContents, run_bind_ok (run_loadDocuments_ok head hds),
      run_bind_error (ih hdss hrest)]

/-- **Where loading stops, exactly the definitions before the fault are stored.** -/
theorem run_loadContents_stops (h : Stops r contents ds fault) :
    (loadContents contents).run.run r = (.error fault, ds.foldl offer r) := by
  cases h with
  | file hbefore hfresh hfile =>
    apply run_loadContents_append_error hbefore hfresh
    rw [loadContents, run_bind_error (run_loadDocuments_refused hfile)]
  | definition hbefore hfile hfresh htaken =>
    obtain ⟨hdss, hds⟩ := fresh_append.mp hfresh
    apply run_loadContents_append_error hbefore hdss
    rw [loadContents, List.foldl_append,
      run_bind_error (run_loadDocuments_taken hfile hds (taken_append.mp htaken))]

/-- Where loading stops in the files behind one that is stored, it stops in all of them. -/
theorem Stops.cons {e : String × Except FileTree.Fault String} {ds' : List Definition}
    (he : ContentHolds e.2 ds) (hfresh : Fresh r ds)
    (h : Stops (ds.foldl offer r) contents ds' fault) :
    Stops r (e :: contents) (ds ++ ds') fault := by
  cases h with
  | @file before after path content dss fault hbefore hrest hfile =>
    rw [← List.flatten_cons, ← List.cons_append]
    exact .file (.cons he hbefore) (fresh_append.mpr ⟨hfresh, hrest⟩) hfile
  | @definition before after path content dss ds₁ ds₂ d hbefore hfile hrest htaken =>
    rw [← List.append_assoc, ← List.flatten_cons, ← List.cons_append]
    refine .definition (.cons he hbefore) hfile ?_ ?_
    · rw [List.flatten_cons, List.append_assoc]
      exact fresh_append.mpr ⟨hfresh, hrest⟩
    · rw [List.flatten_cons, List.append_assoc]
      exact taken_append.mpr htaken

/-- **Either all files are in order and their definitions fresh, or loading stops somewhere.** -/
theorem whole_or_stops (r : Registry) : ∀ contents : List (String × Except FileTree.Fault String),
    (∃ dss, List.Forall₂ (fun e ds => ContentHolds e.2 ds) contents dss ∧ Fresh r dss.flatten) ∨
      ∃ ds fault, Stops r contents ds fault
  | [] => .inl ⟨[], .nil, fresh_nil⟩
  | (path, content) :: contents => by
    rcases contentHolds_or_refused path content with ⟨ds, hds⟩ | ⟨fault, hfault⟩
    · by_cases hfresh : Fresh r ds
      · rcases whole_or_stops (ds.foldl offer r) contents with ⟨dss, hdss, hrest⟩ | ⟨ds', fault, h⟩
        · exact .inl ⟨ds :: dss, .cons hds hdss, fresh_append.mpr ⟨hfresh, hrest⟩⟩
        · exact .inr ⟨_, _, .cons hds hfresh h⟩
      · obtain ⟨before, d, after, rfl, hbefore, htaken⟩ := exists_taken hfresh
        exact .inr ⟨_, _, @Stops.definition _ [] _ _ _ [] _ _ _ .nil hds hbefore htaken⟩
    · exact .inr ⟨_, _, @Stops.file _ [] _ _ _ [] _ .nil fresh_nil hfault⟩

/-- Files whose texts are in order are not loaded if their definitions are not fresh, and then
for one of these. -/
theorem exists_stops_of_not_fresh
    (h : List.Forall₂ (fun e ds => ContentHolds e.2 ds) contents dss)
    (hfresh : ¬ Fresh r dss.flatten) :
    ∃ ds e, Stops r contents ds (.duplicate e) := by
  rcases whole_or_stops r contents with ⟨dss', hdss', hfresh'⟩ | ⟨ds, fault, hstops⟩
  · have hsame := forall₂_of_common (T := Eq) (fun _ _ _ _ h h' => h.unique h') hdss' h
    rw [List.forall₂_eq_eq_eq] at hsame
    exact absurd (hsame ▸ hfresh') hfresh
  · cases hstops with
    | file _ _ hfile =>
      have hall := forall_mem_of_forall₂ (fun e ds hds => Exists.intro ds hds) h
      obtain ⟨ds, hds⟩ := hall _ (List.mem_append_right _ List.mem_cons_self)
      exact absurd hds hfile.not_holds
    | definition hbefore hfile hfresh htaken =>
      exact ⟨_, _, .definition hbefore hfile hfresh htaken⟩

end Several

/-! ### The files below a directory -/

variable {files : List (List String × FileTree)} {dss : List (List Definition)} {directory : String}

/-- What is read of files below a directory, at their paths. -/
def contentsAt (directory : String) (files : List (List String × FileTree)) :
    List (String × Except FileTree.Fault String) :=
  files.map fun e => (FileTree.placePath directory e.1, e.2.content)

theorem loadEach_eq (directory : String) (files : List (List String × FileTree)) :
    loadEach directory files = loadContents (contentsAt directory files) := by
  induction files with
  | nil => rfl
  | cons e files ih =>
    rw [loadEach, ih]
    rfl

theorem forall₂_contentsAt (directory : String) : List.Forall₂ (fun e ds => ContentHolds e.2 ds)
    (contentsAt directory files) dss ↔ List.Forall₂ (fun e ds => e.2.Holds ds) files dss :=
  List.forall₂_map_left_iff

/-! ### The files below a path -/

variable {fileSystem : FileSystem} {path : String} {t : FileTree} {fault : Fault}

/-- A path leads to a directory or it does not. -/
theorem isDirectory_or_not (fileSystem : FileSystem) (path : String) :
    (∃ t, fileSystem path = .ok t ∧ t.isDirectory = true) ∨
      ∀ t, fileSystem path = .ok t → t.isDirectory = false := by
  cases hpath : fileSystem path with
  | error _ => exact .inr nofun
  | ok t =>
    cases ht : t.isDirectory with
    | true => exact .inl ⟨t, rfl, ht⟩
    | false =>
      refine .inr fun u hu => ?_
      cases hu
      exact ht

theorem definitionFiles_of_isDirectory (h : fileSystem path = .ok t) (ht : t.isDirectory = true) :
    definitionFiles fileSystem path = (t.filesWith endings).mapError .file := by
  rw [definitionFiles, h]
  exact if_pos ht

theorem definitionFiles_of_not_isDirectory
    (h : ∀ t, fileSystem path = .ok t → t.isDirectory = false) :
    definitionFiles fileSystem path = .error (.notDirectory path) := by
  rw [definitionFiles]
  cases hpath : fileSystem path with
  | error _ => rfl
  | ok t =>
    have hfile : ¬ t.isDirectory = true := by simp [h t hpath]
    exact if_neg hfile

theorem definitionFiles_eq_ok : definitionFiles fileSystem path = .ok files ↔
    ∃ t, fileSystem path = .ok t ∧ t.isDirectory = true ∧ t.filesWith endings = .ok files := by
  constructor
  · intro h
    rcases isDirectory_or_not fileSystem path with ⟨t, ht, hdirectory⟩ | hfile
    · rw [definitionFiles_of_isDirectory ht hdirectory, mapError_eq_ok] at h
      exact ⟨t, ht, hdirectory, h⟩
    · rw [definitionFiles_of_not_isDirectory hfile] at h
      cases h
  · rintro ⟨t, ht, hdirectory, hfiles⟩
    rw [definitionFiles_of_isDirectory ht hdirectory, mapError_eq_ok, hfiles]

theorem loadDirectory_of_definitionFiles (h : definitionFiles fileSystem path = .ok files) :
    loadDirectory fileSystem path = loadContents (contentsAt path files) := by
  simp only [loadDirectory, h, loadEach_eq]

/-- If the files cannot be found, nothing is stored. -/
theorem run_loadDirectory_of_error (h : definitionFiles fileSystem path = .error fault)
    (r : Registry) : (loadDirectory fileSystem path).run.run r = (.error fault, r) := by
  simp only [loadDirectory, h]
  rfl

end Registry

/-- A file holds one list of definitions at most. -/
theorem FileTree.Holds.unique {file : FileTree} {ds ds' : List Definition} (h : file.Holds ds)
    (h' : file.Holds ds') : ds = ds' :=
  Registry.ContentHolds.unique h h'

end SborSchema
