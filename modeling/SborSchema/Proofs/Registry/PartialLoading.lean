/-
# What a load leaves behind

A load finds all its files before it reads the first, and fails with nothing stored
if a directory cannot be listed. It takes the files in path order, and reads each as
a whole before it stores any of its definitions. If every file is in order and every
definition fresh, the registry gains all of them and the load counts them. Otherwise
it fails, and the registry has gained the definitions in front of the fault and no
others. Nothing that was stored is changed either way.

Key definitions: `Registry.Gains`, `Registry.LoadsFile`, `Registry.LoadsInOrder`,
`Registry.LoadsDirectory`.
Key theorems: `Registry.gains_of_fresh`, `Registry.loadsFile`, `Registry.loadsInOrder`,
`Registry.loadsDirectory`, `Registry.load_stores_what_precedes`.
-/
import SborSchema.Proofs.Command.Definitions

namespace SborSchema

/-- Under distinct keys, a definition of a list is the first one of its name and version. -/
theorem Definition.firstOf_eq_some {ds : List Definition} (hnodup : (ds.map key).Nodup)
    {name : String} {version : Nat} {d : Definition} :
    firstOf ds name version = some d ↔ d ∈ ds ∧ d.key = (name, version) := by
  rw [firstOf]
  constructor
  · intro h
    exact ⟨List.mem_of_find?_eq_some h, by simpa using List.find?_some h⟩
  · rintro ⟨hd, hkey⟩
    obtain ⟨g, hg⟩ : ∃ g, ds.find? (fun d => decide (d.key = (name, version))) = some g :=
      Option.isSome_iff_exists.mp (List.find?_isSome.mpr ⟨d, hd, decide_eq_true hkey⟩)
    have hgkey : g.key = (name, version) := by simpa using List.find?_some hg
    rw [hg, List.inj_on_of_nodup_map hnodup (List.mem_of_find?_eq_some hg) hd
      (hgkey.trans hkey.symm)]

namespace Registry

variable {r r' : Registry} {ds : List Definition} {files : FileSystem} {path : String}

/-- The second registry is the first one and the definitions beside it. -/
structure Gains (r : Registry) (ds : List Definition) (r' : Registry) : Prop where
  /-- The definitions take the place of nothing. -/
  fresh : Fresh r ds
  /-- What was stored is stored, and so are the definitions, and nothing else. -/
  find?_eq_some (name : String) (version : Nat) (d : Definition) :
    r'.find? name version = some d ↔
      r.find? name version = some d ∨ d ∈ ds ∧ d.key = (name, version)
  /-- If all questions were answered from what is stored, they still are. -/
  represents (h : r.Represents r.find?) : r'.Represents r'.find?

/-- **Offering fresh definitions adds them to what is stored.** -/
theorem gains_of_fresh (h : Fresh r ds) : Gains r ds (ds.foldl offer r) where
  fresh := h
  find?_eq_some name version d := by
    rw [find?_foldl_offer, Option.or_eq_some_iff, Definition.firstOf_eq_some h.1]
    constructor
    · rintro (hd | ⟨-, hd⟩)
      · exact .inl hd
      · exact .inr hd
    · rintro (hd | ⟨hmem, hkey⟩)
      · exact .inl hd
      · obtain ⟨rfl, rfl⟩ := Prod.mk.inj hkey
        exact .inr ⟨h.2 d hmem, hmem, rfl⟩
  represents hr := (hr.consistent.foldl_offer ds).represents

/-- What was stored is not changed. -/
theorem Gains.kept {name : String} {version : Nat} {d : Definition} (h : Gains r ds r')
    (hd : r.find? name version = some d) : r'.find? name version = some d :=
  (h.find?_eq_some name version d).mpr (.inl hd)

/-! ### Several files -/

/-- What comes of loading the contents of files one after the other. -/
structure LoadsInOrder (r : Registry) (contents : List (String × Except FileTree.Fault String))
    (outcome : Except Fault Nat × Registry) : Prop where
  /-- All definitions are stored and counted if all files are in order and all definitions fresh. -/
  whole {dss : List (List Definition)}
    (h : List.Forall₂ (fun e ds => ContentHolds e.2 ds) contents dss)
    (hfresh : Fresh r dss.flatten) :
    outcome.1 = .ok dss.flatten.length ∧ Gains r dss.flatten outcome.2
  /-- Where loading stops, the definitions before the fault are stored. -/
  part {ds : List Definition} {fault : Fault} (h : Stops r contents ds fault) :
    outcome.1 = .error fault ∧ Gains r ds outcome.2
  /-- There is no third way. -/
  either : (∃ dss, List.Forall₂ (fun e ds => ContentHolds e.2 ds) contents dss ∧
      Fresh r dss.flatten) ∨ ∃ ds fault, Stops r contents ds fault

/-- The definitions in front of a fault are fresh. -/
theorem Stops.fresh {contents : List (String × Except FileTree.Fault String)} {fault : Fault}
    (h : Stops r contents ds fault) : Fresh r ds := by
  cases h with
  | file _ hfresh _ => exact hfresh
  | definition _ _ hfresh _ => exact hfresh

/-- **Contents of files are loaded in their order.** -/
theorem loadsInOrder (r : Registry) (contents : List (String × Except FileTree.Fault String)) :
    LoadsInOrder r contents ((loadContents contents).run.run r) where
  whole h hfresh := by
    rw [run_loadContents_ok h hfresh]
    exact ⟨rfl, gains_of_fresh hfresh⟩
  part h := by
    rw [run_loadContents_stops h]
    exact ⟨rfl, gains_of_fresh h.fresh⟩
  either := whole_or_stops r contents

/-- In either case the registry gains definitions and loses none. -/
theorem LoadsInOrder.kept {contents : List (String × Except FileTree.Fault String)}
    {outcome : Except Fault Nat × Registry} (h : LoadsInOrder r contents outcome) {name : String}
    {version : Nat} {d : Definition} (hd : r.find? name version = some d) :
    outcome.2.find? name version = some d := by
  rcases h.either with ⟨dss, hdss, hfresh⟩ | ⟨ds, fault, hstops⟩
  · exact (h.whole hdss hfresh).2.kept hd
  · exact (h.part hstops).2.kept hd

/-! ### One file -/

/-- What comes of loading the content of one file, which has to hold a definition. -/
structure LoadsFile (r : Registry) (path : String) (content : Except FileTree.Fault String)
    (outcome : Except Fault Nat × Registry) : Prop where
  /-- All definitions are stored and counted if the file is in order and they are fresh. -/
  whole {ds : List Definition} (h : ContentHolds content ds) (hne : ds ≠ []) (hfresh : Fresh r ds) :
    outcome.1 = .ok ds.length ∧ Gains r ds outcome.2
  /-- A file without definitions is refused, and nothing changes. -/
  empty (h : ContentHolds content []) :
    outcome = (.error (.definition (some path) .noDefinition), r)
  /-- Where loading stops, the definitions before the fault are stored. -/
  part {ds : List Definition} {fault : Fault} (h : Stops r [(path, content)] ds fault) :
    outcome.1 = .error fault ∧ Gains r ds outcome.2
  /-- There is no other way. -/
  either : (∃ ds, ContentHolds content ds ∧ Fresh r ds) ∨
    ∃ ds fault, Stops r [(path, content)] ds fault

theorem run_loadDocuments_stops {content : Except FileTree.Fault String} {fault : Fault}
    (h : Stops r [(path, content)] ds fault) :
    (loadDocuments path content).run.run r = (.error fault, ds.foldl offer r) := by
  have hrun := run_loadContents_stops h
  rw [loadContents] at hrun
  cases hfile : (loadDocuments path content).run.run r with
  | mk outcome r' =>
    cases outcome with
    | ok n =>
      rw [run_bind_ok hfile] at hrun
      cases hrun
    | error e => rwa [run_bind_error hfile] at hrun

/-- **A file is loaded with all its definitions, or up to the fault in it.** -/
theorem loadsFile (files : FileSystem) (path : String) (r : Registry) :
    LoadsFile r path (files.readText path) ((loadFile files path).run.run r) where
  whole {ds} h hne hfresh := by
    have hcount : ds.length ≠ 0 := by simpa using hne
    rw [loadFile, run_bind_ok (run_loadDocuments_ok h hfresh), if_neg hcount]
    exact ⟨rfl, gains_of_fresh hfresh⟩
  empty h := by
    rw [loadFile, run_bind_ok (run_loadDocuments_ok h fresh_nil)]
    rfl
  part h := by
    rw [loadFile, run_bind_error (run_loadDocuments_stops h)]
    exact ⟨rfl, gains_of_fresh h.fresh⟩
  either := by
    refine (whole_or_stops r [(path, files.readText path)]).imp_left ?_
    rintro ⟨dss, hdss, hfresh⟩
    cases hdss with
    | @cons _ ds _ _ hds hnil =>
    cases hnil
    exact ⟨ds, hds, by simpa using hfresh⟩

theorem LoadsFile.kept {content : Except FileTree.Fault String}
    {outcome : Except Fault Nat × Registry} (h : LoadsFile r path content outcome) {name : String}
    {version : Nat} {d : Definition} (hd : r.find? name version = some d) :
    outcome.2.find? name version = some d := by
  rcases h.either with ⟨ds, hds, hfresh⟩ | ⟨ds, fault, hstops⟩
  · by_cases hne : ds = []
    · subst hne
      rw [h.empty hds]
      exact hd
    · exact (h.whole hds hne hfresh).2.kept hd
  · exact (h.part hstops).2.kept hd

/-! ### A directory -/

/-- What comes of loading the files of definitions below a directory. -/
structure LoadsDirectory (r : Registry) (path : String) (t : FileTree)
    (outcome : Except Fault Nat × Registry) : Prop where
  /-- If a directory cannot be listed, loading fails with the fault of one, and nothing changes,
  whatever the files before it hold. -/
  unlisted (h : ¬ t.Listable) : ∃ place u f, FileTree.At t place u ∧ u.listingFault? = some f ∧
    outcome = (.error (.file f), r)
  /-- Else the files that are loaded are those whose names say so, in path order. -/
  listed (h : t.Listable) : ∃ found, t.filesWith endings = .ok found ∧
    (found.map (·.1)).Pairwise (· ≤ ·) ∧
    (∀ place file, (place, file) ∈ found ↔ FileTree.At t place file ∧ file.isDirectory = false ∧
      ∃ name, place.getLast? = some name ∧ IsDefinitionName name) ∧
    LoadsInOrder r (contentsAt path found) outcome

/-- **The files below a directory are loaded in path order, if they can all be found.** -/
theorem loadsDirectory {t : FileTree} (r : Registry) (hfiles : files path = .ok t)
    (ht : t.isDirectory = true) :
    LoadsDirectory r path t ((loadDirectory files path).run.run r) where
  unlisted h := by
    cases hfound : t.filesWith endings with
    | ok found => exact absurd (FileTree.exists_filesWith_iff.mp ⟨found, hfound⟩) h
    | error f =>
      obtain ⟨place, u, hu, hfault⟩ := FileTree.exists_fault_of_filesWith hfound
      have hdefinitions := definitionFiles_of_isDirectory hfiles ht
      rw [hfound] at hdefinitions
      exact ⟨place, u, f, hu, hfault, run_loadDirectory_of_error hdefinitions r⟩
  listed h := by
    obtain ⟨found, hfound⟩ := FileTree.exists_filesWith_iff.mpr h
    refine ⟨found, hfound, FileTree.filesWith_sorted hfound, fun place file =>
      mem_definitionFiles hfound, ?_⟩
    rw [loadDirectory_of_definitionFiles (definitionFiles_eq_ok.mpr ⟨t, hfiles, ht, hfound⟩)]
    exact loadsInOrder r _

theorem LoadsDirectory.kept {t : FileTree} {outcome : Except Fault Nat × Registry}
    (h : LoadsDirectory r path t outcome) {name : String} {version : Nat} {d : Definition}
    (hd : r.find? name version = some d) : outcome.2.find? name version = some d := by
  by_cases hlistable : t.Listable
  · obtain ⟨found, -, -, -, hload⟩ := h.listed hlistable
    exact hload.kept hd
  · obtain ⟨_, _, _, -, -, rfl⟩ := h.unlisted hlistable
    exact hd

/-! ### Loading from a file system -/

/-- **A load stores what precedes the first fault, and everything if there is none.** This is
so of a file, and of the files of definitions below a directory, which come in path order;
each is read as a whole before any of its definitions is stored. All files are found before
one is read, so a directory that cannot be listed is a fault that nothing precedes. A path
that leads to no directory changes nothing, and what was stored before is never changed. -/
theorem load_stores_what_precedes (files : FileSystem) (path : String) (r : Registry) :
    LoadsFile r path (files.readText path) ((loadFile files path).run.run r) ∧
    (∀ t, files path = .ok t → t.isDirectory = true →
      LoadsDirectory r path t ((loadDirectory files path).run.run r)) ∧
    ((∀ t, files path = .ok t → t.isDirectory = false) →
      (loadDirectory files path).run.run r = (.error (.notDirectory path), r)) ∧
    ∀ name version d, r.find? name version = some d →
      ((loadFile files path).run.run r).2.find? name version = some d ∧
      ((loadDirectory files path).run.run r).2.find? name version = some d := by
  have hfile (h : ∀ t, files path = .ok t → t.isDirectory = false) :
      (loadDirectory files path).run.run r = (.error (.notDirectory path), r) :=
    run_loadDirectory_of_error (definitionFiles_of_not_isDirectory h) r
  refine ⟨loadsFile files path r, fun t hfiles ht => loadsDirectory r hfiles ht, hfile,
    fun name version d hd => ⟨(loadsFile files path r).kept hd, ?_⟩⟩
  rcases isDirectory_or_not files path with ⟨t, hfiles, ht⟩ | hoff
  · exact (loadsDirectory r hfiles ht).kept hd
  · rw [hfile hoff]
    exact hd

/-- In the second file a definition comes again between two others: the one before it is stored
and the one behind it is not. -/
theorem load_stores_what_precedes_two :
    let files := twoFiles "schema A:\n  version: 1\n  type: bool\n"
      ("schema B:\n  version: 1\n  type: bool\n---\nschema A:\n  version: 1\n  type: string\n" ++
        "---\nschema C:\n  version: 1\n  type: bool\n")
    ∃ a b, a.key = ("A", 1) ∧ b.key = ("B", 1) ∧
      ((loadDirectory files "d").run.run empty).1 = .error (.duplicate ⟨"A", 1⟩) ∧
      Gains empty [a, b] ((loadDirectory files "d").run.run empty).2 := by
  intro files
  obtain ⟨ds, hds, hkeys⟩ := exists_ok_of_toOption_map (g := List.map Definition.key)
    (b := [("A", 1)]) (x := Definition.allOfText "schema A:\n  version: 1\n  type: bool\n")
    (by decide +kernel)
  obtain ⟨a, _, rfl, ha, hrest⟩ := List.map_eq_cons_iff.mp hkeys
  obtain rfl := List.map_eq_nil_iff.mp hrest
  obtain ⟨ds', hds', hkeys'⟩ := exists_ok_of_toOption_map (g := List.map Definition.key)
    (b := [("B", 1), ("A", 1), ("C", 1)]) (x := Definition.allOfText
      ("schema B:\n  version: 1\n  type: bool\n---\nschema A:\n  version: 1\n  type: string\n" ++
        "---\nschema C:\n  version: 1\n  type: bool\n"))
    (by decide +kernel)
  obtain ⟨b, _, rfl, hb, hrest'⟩ := List.map_eq_cons_iff.mp hkeys'
  obtain ⟨a', after, rfl, ha', -⟩ := List.map_eq_cons_iff.mp hrest'
  obtain ⟨found, hfound, -, -, hload⟩ :=
    ((load_stores_what_precedes files "d" empty).2.1 _ rfl rfl).listed listable_twoEntries
  obtain rfl := Except.ok.inj (filesWith_twoEntries.symm.trans hfound)
  have hfresh : Fresh empty [a, b] := by
    rw [fresh_empty]
    simp [ha, hb]
  have htaken : Taken empty [a, b] a' := .inr (by simp [ha, ha'])
  obtain ⟨hfault, hgains⟩ := hload.part (@Stops.definition empty [_] [] _ _ [[a]] [b] after a'
    (.cons ⟨_, rfl, hds⟩ .nil) ⟨_, rfl, hds'⟩ hfresh htaken)
  obtain ⟨hname, hversion⟩ := Prod.mk.inj ha'
  rw [hname, hversion] at hfault
  exact ⟨a, b, ha, hb, hfault, hgains⟩

end Registry

end SborSchema
