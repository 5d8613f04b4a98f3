/-
# Directories that are checked and directories that are loaded

One command reads every file of definitions below a directory and counts the
definitions; loading stores them. The two go through the files in their own ways.
The check walks: it passes over directories that it cannot list, and over what
stands behind links. Loading searches: it fails where a directory cannot be listed,
follows links, and asks besides that the path leads to a directory and that no two
definitions share a name and version. What the check reads without a fault loading
reads as well, so these are all the ways in which the two can differ
(`Registry.LoadsReported`). Where every directory can be listed and no link leads to
one, the count of a check that finds no fault is the number of definitions that are
loaded exactly if no two share a name and version.

Key definitions: `Registry.HoldsDefinitions`, `Registry.linkedFiles`, `Session.isWanted`,
`Transcript.ReportsValid`, `Registry.LoadsReported`.
Key theorems: `Session.isWanted_eq_isFileWith`, `Session.definitionPlaces_perm`,
`Session.run_validateEach`, `Session.holds_of_reportsValid`, `Session.reportsValid_of_holds`,
`Registry.found_perm`, `Registry.run_loadDirectory`,
`Registry.run_loadDirectory_of_reportsValid`.
-/
import SborSchema.Command.Run
import SborSchema.Proofs.Digits
import SborSchema.Proofs.FileTree.Order
import SborSchema.Proofs.Lists
import SborSchema.Proofs.Registry.Loading

namespace SborSchema

/-! ### The files of definitions -/

namespace Registry

/-- Below the directory at the path are files of definitions, which hold these. -/
def HoldsDefinitions (files : FileSystem) (directory : String) (dss : List (List Definition)) :
    Prop :=
  ∃ found, definitionFiles files directory = .ok found ∧
    List.Forall₂ (fun e ds => e.2.Holds ds) found dss

/-- The files of definitions that a walk comes to; directories are left out. -/
def walkedFiles (t : FileTree) : List (List String × FileTree) :=
  t.target.places.filter (FileTree.isFileWith endings)

/-- The files of definitions that stand behind a link to a directory. -/
def linkedFiles (t : FileTree) : List (List String × FileTree) :=
  t.target.linked.filter (FileTree.isFileWith endings)

/-- **A search finds what a walk comes to and what stands behind links.** -/
theorem found_perm {t : FileTree} {found : List (List String × FileTree)}
    (h : t.filesWith endings = .ok found) : found.Perm (walkedFiles t ++ linkedFiles t) := by
  have hroot : ¬ FileTree.isFileWith endings ([], t.target) = true := by
    simp [FileTree.isFileWith]
  have hplaces := (FileTree.cons_reached_perm t.target).filter (FileTree.isFileWith endings)
  rw [List.filter_cons_of_neg hroot, List.filter_append, FileTree.reached_target] at hplaces
  exact (FileTree.filesWith_perm h).trans hplaces

end Registry

namespace Session

variable {directory : String} {t : FileTree}

theorem nameAt?_of_ne_nil (directory : String) {place : List String} (h : place ≠ []) :
    FileTree.nameAt? directory place = place.getLast? := by
  rw [FileTree.nameAt?, List.getLast?_eq_some_getLast h]

/-- Whether a walk takes a place for a file of definitions; it goes by the name only. -/
def isWanted (directory : String) (e : List String × FileTree) : Bool :=
  ((FileTree.nameAt? directory e.1).bind FileTree.extension?).any Registry.endings.contains

theorem definitionPlaces_eq_map (directory : String) (t : FileTree) : definitionPlaces directory t =
    (t.target.walk.filter (isWanted directory)).map
      fun e => (FileTree.placePath directory e.1, e.2) :=
  rfl

theorem mem_definitionPlaces (directory : String) {file : FileTree} {place : List String}
    (h : (place, file) ∈ t.target.places) (hwanted : isWanted directory (place, file) = true) :
    (FileTree.placePath directory place, file) ∈ definitionPlaces directory t :=
  List.mem_map.mpr ⟨_, List.mem_filter.mpr ⟨(FileTree.walk_perm _).mem_iff.mpr h, hwanted⟩, rfl⟩

/-- If directories are not wanted, the walk takes for files of definitions what is loaded. -/
theorem isWanted_eq_isFileWith (ht : t.isDirectory = true)
    (h : ∀ e ∈ t.places, e.2.isDirectory = true → isWanted directory e = false) :
    ∀ e ∈ t.places, isWanted directory e = FileTree.isFileWith Registry.endings e := by
  rintro ⟨place, file⟩ he
  cases hdirectory : file.isDirectory with
  | true => rw [h _ he hdirectory, FileTree.isFileWith_of_isDirectory hdirectory]
  | false =>
    have hplace : place ≠ [] := by
      rintro rfl
      obtain rfl := FileTree.mem_places_nil he
      exact Bool.false_ne_true (hdirectory.symm.trans ht)
    rw [isWanted, nameAt?_of_ne_nil directory hplace, FileTree.isFileWith, hdirectory]
    rfl

/-- If a walk takes no directory for a file of definitions, it comes to all files of definitions
but those behind links. -/
theorem definitionPlaces_perm (ht : t.isDirectory = true)
    (h : ∀ place ∈ definitionPlaces directory t, place.2.isDirectory = false) :
    (definitionPlaces directory t).Perm
      ((Registry.walkedFiles t).map fun e => (FileTree.placePath directory e.1, e.2)) := by
  have hdirectory : ∀ e ∈ t.target.places, e.2.isDirectory = true →
      isWanted directory e = false := by
    rintro ⟨place, file⟩ he hdirectory
    by_contra hne
    have hmem := mem_definitionPlaces directory he (by simpa using hne)
    exact Bool.false_ne_true ((h _ hmem).symm.trans hdirectory)
  have htarget : t.target.isDirectory = true := (FileTree.isDirectory_target t).trans ht
  rw [definitionPlaces_eq_map, Registry.walkedFiles]
  refine List.Perm.map _ (((FileTree.walk_perm _).filter _).trans ?_)
  rw [List.filter_congr (isWanted_eq_isFileWith htarget hdirectory)]

/-! ### Checking a directory -/

variable {files : FileSystem} {lines lines' : List OutputLine}

theorem run_say (text : String) (lines : List OutputLine) :
    (say text).run.run lines = (.ok (), .standard text :: lines) := rfl

theorem orFail_eq_ok {α ε : Type} {message : String} {causes : ε → List String} {x : Except ε α}
    {a : α} (h : (orFail message causes x).run.run lines = (.ok a, lines')) :
    x = .ok a ∧ lines' = lines := by
  cases x with
  | ok b =>
    cases h
    exact ⟨rfl, rfl⟩
  | error e => cases h

/-- If no file is refused, each holds definitions, and they are counted. -/
theorem run_validateEach {n : Nat} : ∀ {places : List (String × FileTree)}
    {lines : List OutputLine}, (validateEach places).run.run lines = (.ok (n, 0), lines') →
    ∃ dss, List.Forall₂ (fun e ds => e.2.Holds ds) places dss ∧ n = dss.flatten.length
  | [], _, h => by
    cases h
    exact ⟨[], .nil, rfl⟩
  | (path, file) :: rest, lines, h => by
    obtain ⟨text, lines₁, htext, h⟩ := run_bind_eq_ok.mp h
    obtain ⟨htext, -⟩ := orFail_eq_ok htext
    cases hds : Definition.allOfText text with
    | error f =>
      -- A refused file is counted, and no count goes back to zero.
      simp only [hds] at h
      obtain ⟨_, lines₂, -, h⟩ := run_bind_eq_ok.mp h
      obtain ⟨⟨valid, refused⟩, lines₃, -, h⟩ := run_bind_eq_ok.mp h
      cases h
    | ok ds =>
      simp only [hds] at h
      obtain ⟨_, lines₂, -, h⟩ := run_bind_eq_ok.mp h
      obtain ⟨⟨valid, refused⟩, lines₃, hrest, h⟩ := run_bind_eq_ok.mp h
      cases h
      obtain ⟨dss, hdss, rfl⟩ := run_validateEach hrest
      refine ⟨ds :: dss, .cons ⟨text, htext, hds⟩ hdss, ?_⟩
      rw [List.flatten_cons, List.length_append, Nat.add_comm]

/-- If each file holds definitions, none is refused. -/
theorem run_validateEach_of_holds {places : List (String × FileTree)} {dss : List (List Definition)}
    (h : List.Forall₂ (fun e ds => e.2.Holds ds) places dss) : ∀ lines,
    ∃ lines', (validateEach places).run.run lines = (.ok (dss.flatten.length, 0), lines') := by
  induction h with
  | nil => exact fun lines => ⟨lines, rfl⟩
  | @cons place ds _ _ head _ ih =>
    intro lines
    obtain ⟨path, file⟩ := place
    obtain ⟨text, htext, hds⟩ := head
    have hread : (orFail ("read " ++ quotedPath path) FileTree.Fault.causes file.content).run.run
        lines = (.ok text, lines) := by
      rw [htext]
      rfl
    rw [validateEach, run_bind_ok hread]
    simp only [hds]
    obtain ⟨lines', hrest⟩ := ih _
    refine ⟨lines', ?_⟩
    rw [run_bind_ok (run_say _ _), run_bind_ok hrest, List.flatten_cons, List.length_append,
      Nat.add_comm]
    rfl

/-- The last line of the command. -/
def countLine (valid refused : Nat) : String :=
  "\n" ++ Digits.text valid ++ " definitions valid, " ++ Digits.text refused ++ " files with errors"

theorem countLine_injective {m n k : Nat} (h : countLine m k = countLine n k) : m = n := by
  have hdigits : Digits.text (m : Int) = Digits.text n := by simpa [countLine] using h
  exact Int.ofNat.inj (Digits.text_injective hdigits)

/-- The files of definitions that the command comes to. -/
def placesAt (files : FileSystem) (directory : String) : List (String × FileTree) :=
  match files directory with
  | .ok t => definitionPlaces directory t
  | .error _ => []

/-- A command that ends well has refused no file, and says at last what it has counted. -/
theorem run_validateSchemas
    (h : (validateSchemas files directory).run.run lines = (.ok (), lines')) :
    ∃ n lines₁, (validateEach (placesAt files directory)).run.run lines = (.ok (n, 0), lines₁) ∧
      lines' = .standard (countLine n 0) :: lines₁ := by
  obtain ⟨⟨valid, refused⟩, lines₁, heach, h⟩ := run_bind_eq_ok.mp h
  obtain ⟨_, lines₂, hsay, h⟩ := run_bind_eq_ok.mp h
  cases hsay
  by_cases hrefused : 0 < refused
  · rw [if_pos hrefused] at h
    cases h
  · rw [if_neg hrefused] at h
    cases h
    obtain rfl : refused = 0 := by omega
    exact ⟨valid, lines₁, heach, rfl⟩

end Session

/-! ### What the command leaves behind -/

/-- The command ended well, and said at last that it found `n` definitions and no refused file. -/
def Transcript.ReportsValid (t : Transcript) (n : Nat) : Prop :=
  t.exitCode = 0 ∧ t.lines.getLast? = some (.standard (Session.countLine n 0))

namespace Transcript

/-- A command that ends well leaves behind its lines. -/
theorem of_eq {s : Session Unit} {lines : List OutputLine} (h : s.run.run [] = (.ok (), lines)) :
    of s = ⟨lines.reverse, none⟩ := by
  rw [of, h]

theorem exitCode_of_eq_zero {s : Session Unit} (h : (of s).exitCode = 0) :
    ∃ lines, s.run.run [] = (.ok (), lines) := by
  rw [of] at h
  split at h
  · next lines hrun => exact ⟨lines, hrun⟩
  · cases h

end Transcript

namespace Session

variable {files : FileSystem} {directory : String} {verbose : Bool} {n : Nat}

/-- A check that finds no fault has read all files of definitions, and counted the definitions. -/
theorem holds_of_reportsValid {config : Option String}
    (h : (Invocation.run files
      ⟨verbose, config, .validateSchemas (some directory)⟩).ReportsValid n) :
    ∃ dss, List.Forall₂ (fun e ds => e.2.Holds ds) (placesAt files directory) dss ∧
      n = dss.flatten.length := by
  obtain ⟨hexit, hlast⟩ := h
  obtain ⟨lines, hrun⟩ := Transcript.exitCode_of_eq_zero hexit
  rw [Invocation.run, Transcript.of_eq hrun, List.getLast?_reverse] at hlast
  obtain ⟨settings, lines₀, -, hrun⟩ := run_bind_eq_ok.mp hrun
  obtain ⟨v, lines₁, heach, rfl⟩ := run_validateSchemas hrun
  rw [List.head?_cons, Option.some.injEq, OutputLine.standard.injEq] at hlast
  obtain rfl := countLine_injective hlast
  exact run_validateEach heach

/-- If all files of definitions are in order, the check finds no fault. -/
theorem reportsValid_of_holds {dss : List (List Definition)}
    (h : List.Forall₂ (fun e ds => e.2.Holds ds) (placesAt files directory) dss) :
    (Invocation.run files ⟨verbose, none, .validateSchemas (some directory)⟩).ReportsValid
      dss.flatten.length := by
  obtain ⟨lines, heach⟩ := run_validateEach_of_holds h []
  have hrun : (validateSchemas files directory).run.run [] =
      (.ok (), .standard (countLine dss.flatten.length 0) :: lines) :=
    run_bind_ok heach _
  have hof : Invocation.run files ⟨verbose, none, .validateSchemas (some directory)⟩ =
      ⟨(.standard (countLine dss.flatten.length 0) :: lines).reverse, none⟩ :=
    Transcript.of_eq hrun
  rw [hof]
  refine ⟨rfl, ?_⟩
  rw [List.getLast?_reverse]
  rfl

end Session

/-! ### Loading the directory -/

namespace Registry

variable {files : FileSystem} {directory : String} {t : FileTree}
  {found : List (List String × FileTree)} {dss : List (List Definition)}

theorem isDirectory_of_holds : ∀ {t : FileTree} {ds : List Definition}, t.Holds ds →
    t.isDirectory = false
  | .text _, _, _ | .binary, _, _ => rfl
  | .closed _ _, _, h | .listing _ _, _, h => by
    obtain ⟨_, htext, -⟩ := h
    cases htext
  | .link t, _, h => isDirectory_of_holds (t := t) h

/-- If all files that a check comes to are in order, so are the files of definitions below the
directory, except those behind links. -/
theorem exists_walked_of_holds (hfiles : files directory = .ok t) (ht : t.isDirectory = true)
    (h : List.Forall₂ (fun e ds => e.2.Holds ds) (Session.placesAt files directory) dss) :
    ∃ dss', List.Forall₂ (fun e ds => e.2.Holds ds) (walkedFiles t) dss' ∧
      dss'.flatten.length = dss.flatten.length := by
  rw [Session.placesAt, hfiles] at h
  have hperm := Session.definitionPlaces_perm ht
    (forall_mem_of_forall₂ (fun _ _ hholds => isDirectory_of_holds hholds) h)
  obtain ⟨dss', hdss', hsame⟩ := List.perm_comp_forall₂ hperm.symm h
  rw [List.forall₂_map_left_iff] at hdss'
  exact ⟨dss', hdss', hsame.flatten.length_eq⟩

/-- A directory holds one list of definitions in each file at most. -/
theorem HoldsDefinitions.unique {dss' : List (List Definition)}
    (h : HoldsDefinitions files directory dss) (h' : HoldsDefinitions files directory dss') :
    dss = dss' := by
  obtain ⟨found, hfound, hdss⟩ := h
  obtain ⟨found', hfound', hdss'⟩ := h'
  obtain rfl : found = found' := Except.ok.inj (hfound.symm.trans hfound')
  have hsame := forall₂_of_common (T := Eq) (fun _ _ _ _ h h' => h.unique h') hdss hdss'
  rwa [List.forall₂_eq_eq_eq] at hsame

/-- **A directory of files in order is loaded if no two definitions share a name and version**,
and otherwise refused for one that is stored already. -/
theorem run_loadDirectory (h : HoldsDefinitions files directory dss) :
    ((dss.flatten.map Definition.key).Nodup ∧ (loadDirectory files directory).run.run empty =
      (.ok dss.flatten.length, ofOffers dss.flatten)) ∨
    (¬ (dss.flatten.map Definition.key).Nodup ∧
      ∃ e r, (loadDirectory files directory).run.run empty = (.error (.duplicate e), r)) := by
  obtain ⟨found, hfound, hdss⟩ := h
  have hcontents := (forall₂_contentsAt directory).mpr hdss
  rw [loadDirectory_of_definitionFiles hfound]
  by_cases hkeys : (dss.flatten.map Definition.key).Nodup
  · exact .inl ⟨hkeys, run_loadContents_ok hcontents (fresh_empty.mpr hkeys)⟩
  · obtain ⟨ds, e, hstops⟩ :=
      exists_stops_of_not_fresh hcontents fun hfresh => hkeys (fresh_empty.mp hfresh)
    exact .inr ⟨hkeys, e, _, run_loadContents_stops hstops⟩

/-- What becomes of loading a directory in which a check found `n` definitions and no fault. -/
inductive LoadsReported (files : FileSystem) (directory : String) (n : Nat) :
    Except Fault Nat × Registry → Prop
  /-- The path leads to no directory. -/
  | notDirectory (h : ∀ t, files directory = .ok t → t.isDirectory = false) :
      LoadsReported files directory n (.error (.notDirectory directory), empty)
  /-- A directory cannot be listed, and no file is read. -/
  | unlisted {t u : FileTree} {place : List String} {f : FileTree.Fault}
      (ht : files directory = .ok t) (hu : t.At place u) (hfault : u.listingFault? = some f) :
      LoadsReported files directory n (.error (.file f), empty)
  /-- Loading stops at a definition whose name and version are taken, or at a file behind a
  link that is out of order. -/
  | stops {t : FileTree} {found : List (List String × FileTree)} {ds : List Definition}
      {fault : Fault} (ht : files directory = .ok t) (hfound : t.filesWith endings = .ok found)
      (hstops : Stops empty (contentsAt directory found) ds fault)
      (hcause : (∃ e, fault = .duplicate e) ∨ ∃ e ∈ linkedFiles t,
        ContentRefused (FileTree.placePath directory e.1) e.2.content fault) :
      LoadsReported files directory n (.error fault, ofOffers ds)
  /-- All files are in order and all definitions have names and versions of their own; those
  behind links come on top of the ones that the check found. -/
  | loads {t : FileTree} {found : List (List String × FileTree)} {dss dss' : List (List Definition)}
      (ht : files directory = .ok t) (hfound : t.filesWith endings = .ok found)
      (hholds : List.Forall₂ (fun e ds => e.2.Holds ds) found dss)
      (hkeys : (dss.flatten.map Definition.key).Nodup)
      (hlinked : List.Forall₂ (fun e ds => e.2.Holds ds) (linkedFiles t) dss')
      (hcount : dss.flatten.length = n + dss'.flatten.length) :
      LoadsReported files directory n (.ok dss.flatten.length, ofOffers dss.flatten)

/-- What a check found and what stands behind links is what a directory holds. -/
theorem exists_holds_of_linked {dss' : List (List Definition)}
    (hfound : t.filesWith endings = .ok found)
    (h : List.Forall₂ (fun e ds => e.2.Holds ds) (walkedFiles t) dss)
    (h' : List.Forall₂ (fun e ds => e.2.Holds ds) (linkedFiles t) dss') :
    ∃ dss'', List.Forall₂ (fun e ds => e.2.Holds ds) found dss'' ∧
      dss''.flatten.length = dss.flatten.length + dss'.flatten.length := by
  obtain ⟨dss'', hdss'', hsame⟩ :=
    List.perm_comp_forall₂ (found_perm hfound) (List.rel_append h h')
  refine ⟨dss'', hdss'', ?_⟩
  rw [hsame.flatten.length_eq, List.flatten_append, List.length_append]

/-- Where loading stops although the files of a walk are in order, a definition is taken or a
file behind a link is refused. -/
theorem cause_of_stops {ds : List Definition} {fault : Fault}
    (hfound : t.filesWith endings = .ok found)
    (h : List.Forall₂ (fun e ds => e.2.Holds ds) (walkedFiles t) dss)
    (hstops : Stops empty (contentsAt directory found) ds fault) :
    (∃ e, fault = .duplicate e) ∨ ∃ e ∈ linkedFiles t,
      ContentRefused (FileTree.placePath directory e.1) e.2.content fault := by
  generalize hcontents : contentsAt directory found = contents at hstops
  cases hstops with
  | definition => exact .inl ⟨_, rfl⟩
  | @file before after path content _ _ _ _ hfile =>
    have hmem : (path, content) ∈ contentsAt directory found :=
      hcontents ▸ List.mem_append_right _ List.mem_cons_self
    obtain ⟨e, he, heq⟩ := List.mem_map.mp hmem
    obtain ⟨rfl, rfl⟩ := Prod.mk.inj heq
    rcases List.mem_append.mp ((found_perm hfound).mem_iff.mp he) with hwalked | hlinked
    · obtain ⟨ds', hds'⟩ := forall_mem_of_forall₂ (fun _ ds hds => Exists.intro ds hds) h e hwalked
      exact absurd hds' hfile.not_holds
    · exact .inr ⟨e, hlinked, hfile⟩

/-- If the files that a walk comes to are in order, this is what loading comes to. -/
theorem loadsReported_of_walked (hfiles : files directory = .ok t) (ht : t.isDirectory = true)
    (h : List.Forall₂ (fun e ds => e.2.Holds ds) (walkedFiles t) dss) :
    LoadsReported files directory dss.flatten.length
      ((loadDirectory files directory).run.run empty) := by
  have hdefinitions := definitionFiles_of_isDirectory hfiles ht
  cases hfound : t.filesWith endings with
  | error f =>
    obtain ⟨place, u, hu, hfault⟩ := FileTree.exists_fault_of_filesWith hfound
    rw [hfound] at hdefinitions
    rw [run_loadDirectory_of_error hdefinitions]
    exact .unlisted hfiles hu hfault
  | ok found =>
    rw [hfound] at hdefinitions
    rw [loadDirectory_of_definitionFiles hdefinitions]
    rcases whole_or_stops empty (contentsAt directory found) with
      ⟨dss', hdss', hfresh⟩ | ⟨ds, fault, hstops⟩
    · -- What is found is in order, so what stands behind links is.
      have hholds := (forall₂_contentsAt directory).mp hdss'
      obtain ⟨dss₂, hdss₂⟩ : ∃ dss₂, List.Forall₂ (fun e ds => e.2.Holds ds) (linkedFiles t) dss₂ :=
        exists_forall₂ fun e he => forall_mem_of_forall₂ (fun _ ds hds => Exists.intro ds hds)
          hholds e ((found_perm hfound).mem_iff.mpr (List.mem_append_right _ he))
      obtain ⟨dss₃, hdss₃, hcount⟩ := exists_holds_of_linked hfound h hdss₂
      obtain rfl : dss' = dss₃ := by
        have hsame := forall₂_of_common (T := Eq) (fun _ _ _ _ h h' => h.unique h') hholds hdss₃
        rwa [List.forall₂_eq_eq_eq] at hsame
      rw [run_loadContents_ok hdss' hfresh]
      exact .loads hfiles hfound hholds (fresh_empty.mp hfresh) hdss₂ hcount
    · rw [run_loadContents_stops hstops]
      exact .stops hfiles hfound hstops (cause_of_stops hfound h hstops)

/-- **What the check of a directory leaves to be found in loading.** If the check finds no fault
and counts `n` definitions, loading does not fail for a file that the check has read. It
fails because the path leads to no directory, a directory cannot be listed, a file behind a
link is out of order, or there is a definition of the name and version of one already; and
otherwise it stores the `n` definitions and those behind links. Where every directory can be
listed and no link leads to one, it stores `n` definitions exactly if no two share a name and
version. -/
theorem run_loadDirectory_of_reportsValid {verbose : Bool} {config : Option String} {n : Nat}
    (h : (Invocation.run files
      ⟨verbose, config, .validateSchemas (some directory)⟩).ReportsValid n) :
    LoadsReported files directory n ((loadDirectory files directory).run.run empty) ∧
    ∀ t, files directory = .ok t → t.isDirectory = true → t.Listable → t.target.Unlinked →
      ∃ dss, HoldsDefinitions files directory dss ∧ dss.flatten.length = n ∧
        (((dss.flatten.map Definition.key).Nodup ∧
          (loadDirectory files directory).run.run empty = (.ok n, ofOffers dss.flatten)) ∨
        (¬ (dss.flatten.map Definition.key).Nodup ∧
          ∃ e r, (loadDirectory files directory).run.run empty = (.error (.duplicate e), r))) := by
  obtain ⟨dss, hdss, rfl⟩ := Session.holds_of_reportsValid h
  refine ⟨?_, fun t hfiles ht hlistable hlinks => ?_⟩
  · rcases isDirectory_or_not files directory with ⟨t, hfiles, ht⟩ | hfile
    · obtain ⟨dss', hwalked, hlength⟩ := exists_walked_of_holds hfiles ht hdss
      rw [← hlength]
      exact loadsReported_of_walked hfiles ht hwalked
    · rw [run_loadDirectory_of_error (definitionFiles_of_not_isDirectory hfile)]
      exact .notDirectory hfile
  · obtain ⟨dss', hwalked, hlength⟩ := exists_walked_of_holds hfiles ht hdss
    obtain ⟨found, hfound⟩ := FileTree.exists_filesWith_iff.mpr hlistable
    have hnone : List.Forall₂ (fun e ds => e.2.Holds ds) (linkedFiles t) [] := by
      rw [linkedFiles, hlinks.linked_eq_nil]
      exact .nil
    obtain ⟨dss'', hholds, hcount⟩ := exists_holds_of_linked hfound hwalked hnone
    rw [List.flatten_nil, List.length_nil, Nat.add_zero, hlength] at hcount
    have hdefinitions : HoldsDefinitions files directory dss'' :=
      ⟨found, definitionFiles_eq_ok.mpr ⟨t, hfiles, ht, hfound⟩, hholds⟩
    rw [← hcount]
    exact ⟨dss'', hdefinitions, rfl, run_loadDirectory hdefinitions⟩

/-! ### Two files in a directory -/

/-- What is in a directory: a file of definitions, another one further down, and a file of
something else. -/
def twoEntries (text text' : String) : List (String × FileTree) :=
  [("a.yaml", .text text), ("b", .directory [("c.yml", .text text')]), ("notes.txt", .binary)]

/-- These entries at one path, and nothing elsewhere. -/
def twoFiles (text text' : String) : FileSystem := fun path =>
  if path = "d" then .ok (.directory (twoEntries text text')) else .error .notFound

variable {text text' : String} {ds ds' : List Definition}

theorem pathNames_d : FileTree.pathNames "d" = ["d"] := by
  rw [FileTree.pathNames, String.splitOn, if_neg (by decide), String.splitOnAux,
    if_neg (by decide +kernel), if_neg (by decide +kernel), String.splitOnAux,
    if_pos (by decide +kernel)]
  decide +kernel

theorem filesWith_twoEntries : FileTree.filesWith endings (.directory (twoEntries text text')) =
    .ok [(["a.yaml"], .text text), (["b", "c.yml"], .text text')] := by
  have horder : FileTree.comesBefore ["a.yaml"] ["b", "c.yml"] = true := by decide
  simp [FileTree.filesWith, FileTree.filesOfEntries, twoEntries, FileTree.isDirectory,
    FileTree.extension?, endings, List.mergeSort_of_pairwise, horder, ok_bind, pure, Except.pure]

theorem listable_twoEntries : (FileTree.directory (twoEntries text text')).Listable :=
  FileTree.exists_filesWith_iff.mp ⟨_, filesWith_twoEntries⟩

theorem unlinked_twoEntries : (FileTree.directory (twoEntries text text')).Unlinked := by
  intro place u hu
  have hmem := FileTree.mem_cons_reached_iff.mpr hu
  simp [FileTree.reached, FileTree.reachedOfEntries, FileTree.under, twoEntries] at hmem

theorem placesAt_twoFiles : Session.placesAt (twoFiles text text') "d" =
    [("d/a.yaml", .text text), ("d/b/c.yml", .text text')] := by
  -- The entries are in order already, so sorting leaves them.
  have hab : "a.yaml" ≤ "b" := by decide
  have han : "a.yaml" ≤ "notes.txt" := by decide
  have hbn : "b" ≤ "notes.txt" := by decide
  have hpath : FileTree.joinPath "d" "a.yaml" = "d/a.yaml" := by decide +kernel
  have hpath' : FileTree.joinPath (FileTree.joinPath "d" "b") "c.yml" = "d/b/c.yml" := by
    decide +kernel
  simp [Session.placesAt, twoFiles, twoEntries, Session.definitionPlaces, FileTree.target,
    FileTree.walk, FileTree.walkEntries, FileTree.nameAt?, FileTree.lastName?, pathNames_d,
    List.mergeSort_of_pairwise, hab, hbn, han, FileTree.extension?, endings, FileTree.placePath,
    hpath, hpath']

/-- If both texts are in order, the check counts their definitions, and the directory holds
them. -/
theorem twoFiles_holds (h : Definition.allOfText text = .ok ds)
    (h' : Definition.allOfText text' = .ok ds') :
    (Invocation.run (twoFiles text text') ⟨false, none, .validateSchemas (some "d")⟩).ReportsValid
        (ds.length + ds'.length) ∧
      HoldsDefinitions (twoFiles text text') "d" [ds, ds'] := by
  have hlength : [ds, ds'].flatten.length = ds.length + ds'.length := by simp
  refine ⟨hlength ▸ Session.reportsValid_of_holds ?_, _,
    definitionFiles_eq_ok.mpr ⟨_, rfl, rfl, filesWith_twoEntries⟩, ?_⟩
  · rw [placesAt_twoFiles]
    exact .cons ⟨text, rfl, h⟩ (.cons ⟨text', rfl, h'⟩ .nil)
  · exact .cons ⟨text, rfl, h⟩ (.cons ⟨text', rfl, h'⟩ .nil)

/-- Two versions of a name in one file and another name in the other one are loaded. -/
theorem run_loadDirectory_of_reportsValid_two :
    let files := twoFiles
      "schema A:\n  version: 1\n  type: bool\n---\nschema A:\n  version: 2\n  type: bool\n"
      "schema B:\n  version: 1\n  type: string[]\n"
    (Invocation.run files ⟨false, none, .validateSchemas (some "d")⟩).ReportsValid 3 ∧
      ((loadDirectory files "d").run.run empty).1 = .ok 3 := by
  intro files
  obtain ⟨ds, hds, hkeys⟩ := exists_ok_of_toOption_map (g := List.map Definition.key)
    (b := [("A", 1), ("A", 2)]) (x := Definition.allOfText
      "schema A:\n  version: 1\n  type: bool\n---\nschema A:\n  version: 2\n  type: bool\n")
    (by decide +kernel)
  obtain ⟨ds', hds', hkeys'⟩ := exists_ok_of_toOption_map (g := List.map Definition.key)
    (b := [("B", 1)]) (x := Definition.allOfText "schema B:\n  version: 1\n  type: string[]\n")
    (by decide +kernel)
  have hlength : ds.length + ds'.length = 3 := by
    have hfirst := congrArg List.length hkeys
    have hsecond := congrArg List.length hkeys'
    rw [List.length_map] at hfirst hsecond
    rw [hfirst, hsecond]
    rfl
  obtain ⟨hreports, hholds⟩ := twoFiles_holds hds hds'
  rw [hlength] at hreports
  refine ⟨hreports, ?_⟩
  obtain ⟨dss, hdss, -, ⟨-, hrun⟩ | ⟨hrepeated, -⟩⟩ :=
    (run_loadDirectory_of_reportsValid hreports).2 _ rfl rfl listable_twoEntries unlinked_twoEntries
  · rw [hrun]
  · obtain rfl := hdss.unique hholds
    simp [hkeys, hkeys'] at hrepeated

/-- A definition of one name and version in each of two files: the check counts both, and the
directory is not loaded. -/
theorem loadDirectory_refuses_reported :
    let files := twoFiles "schema A:\n  version: 1\n  type: bool\n"
      "schema A:\n  version: 1\n  type: bool\n"
    (Invocation.run files ⟨false, none, .validateSchemas (some "d")⟩).ReportsValid 2 ∧
      ∃ e r, (loadDirectory files "d").run.run empty = (.error (.duplicate e), r) := by
  intro files
  obtain ⟨ds, hds, hkeys⟩ := exists_ok_of_toOption_map (g := List.map Definition.key)
    (b := [("A", 1)]) (x := Definition.allOfText "schema A:\n  version: 1\n  type: bool\n")
    (by decide +kernel)
  have hlength : ds.length = 1 := by simpa using congrArg List.length hkeys
  obtain ⟨hreports, hholds⟩ := twoFiles_holds hds hds
  rw [hlength] at hreports
  refine ⟨hreports, ?_⟩
  obtain ⟨hnodup, -⟩ | ⟨-, hrun⟩ := run_loadDirectory hholds
  · simp [hkeys] at hnodup
  · exact hrun

end Registry

end SborSchema
