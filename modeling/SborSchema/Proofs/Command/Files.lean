/-
# Files of definitions in path order

Loading searches for the files of definitions, and each directory sorts the places
of all that is found below it; a check comes to them on a walk that sorts the names
in each directory. Both go through each file once, in the order of places, and
neither depends on how the directories list their entries. They differ only where a
directory has the name of a file of definitions, which the walk takes for one, and
where a link leads to a directory, which the walk does not follow.

Key theorems: `Session.definitionPlaces_eq_filesWith`, `Session.definitionFiles_in_path_order`.
-/
import SborSchema.Proofs.Command.Definitions

namespace SborSchema.Session

open FileTree Registry

variable {path : String} {t listed : FileTree} {found : List (List String × FileTree)}

/-- No directory in the tree at the path has the name of a file of definitions. -/
def DirectoriesUnnamed (path : String) (t : FileTree) : Prop :=
  ∀ place u, At t place u → u.isDirectory = true →
    ∀ name, nameAt? path place = some name → ¬ IsDefinitionName name

/-- In what order entries are listed does not matter to the names of directories. -/
theorem DirectoriesUnnamed.of_relisted (h : DirectoriesUnnamed path t)
    (hlisted : Relisted t listed) : DirectoriesUnnamed path listed := by
  intro place u hu hdirectory
  obtain ⟨u', hu', hsame⟩ := hlisted.symm.exists_at hu
  exact h place u' hu' (hsame.isDirectory_eq ▸ hdirectory)

/-- Nor does it matter to what links lead to. -/
theorem unlinked_of_relisted (h : t.Unlinked) (hlisted : Relisted t listed) : listed.Unlinked := by
  intro place u hu
  obtain ⟨u', hu', hsame⟩ := hlisted.symm.exists_at hu
  obtain ⟨v, rfl, hv⟩ := hsame.symm.exists_link
  rw [hv.isDirectory_eq]
  exact h place v hu'

/-- **If no directory has the name of a file of definitions and no link leads to one, a walk comes
to the files of definitions that are loaded, in their order.** -/
theorem definitionPlaces_eq_filesWith (ht : t.isDirectory = true) (hnames : t.NamesDistinct)
    (hlinks : t.Unlinked) (hunnamed : DirectoriesUnnamed path t)
    (hfound : t.filesWith endings = .ok found) :
    definitionPlaces path t = found.map fun e => (placePath path e.1, e.2) := by
  have htarget : t.target = t := hlinks.target_eq ht
  have hdirectory : ∀ e ∈ t.places, e.2.isDirectory = true → isWanted path e = false := by
    rintro ⟨place, u⟩ he hdirectory
    by_contra hwanted
    obtain ⟨name, hname, hdefinition⟩ := any_endings_iff.mp (Bool.eq_true_of_not_eq_false hwanted)
    have hu : At t place u := mem_cons_reached_iff.mp
      ((cons_reached_perm t).mem_iff.mpr (List.mem_append_left _ he))
    exact hunnamed place u hu hdirectory name hname hdefinition
  have hwalk : ∀ e ∈ t.walk, isWanted path e = isFileWith endings e :=
    fun e he => isWanted_eq_isFileWith ht hdirectory e ((walk_perm _).mem_iff.mp he)
  rw [definitionPlaces_eq_map, htarget, List.filter_congr hwalk,
    filter_walk_eq_filesWith hnames hlinks hfound]

/-- **The files of definitions are found in path order, by loading and by a check.** However
the directories list their entries, the same files are found if they can be listed at all:
each file below the directory whose name says so, once, in the order of places. If no directory
has such a name and no link leads to one, a check comes to them in the same order. -/
theorem definitionFiles_in_path_order (ht : t.isDirectory = true) (hnames : t.NamesDistinct)
    (hlisted : Relisted t listed) :
    (t.Listable ↔ ∃ found, filesWith endings listed = .ok found) ∧
    ∀ found, filesWith endings listed = .ok found →
      filesWith endings t = .ok found ∧
      (∀ place file, (place, file) ∈ found ↔ At t place file ∧ file.isDirectory = false ∧
        ∃ name, place.getLast? = some name ∧ IsDefinitionName name) ∧
      (found.map (·.1)).Pairwise (· < ·) ∧
      (t.Unlinked → ∀ path, DirectoriesUnnamed path t →
        definitionPlaces path listed = found.map fun e => (placePath path e.1, e.2)) := by
  have hnames' : listed.NamesDistinct := hlisted.namesDistinct hnames
  refine ⟨⟨fun h => exists_filesWith_iff.mpr (hlisted.listable h),
    fun h => hlisted.symm.listable (exists_filesWith_iff.mp h)⟩, fun found hfound => ?_⟩
  have hsame : filesWith endings t = .ok found := hlisted.symm.filesWith_eq hnames' hfound
  exact ⟨hsame, fun place file => mem_definitionFiles hsame, filesWith_ascending hnames hsame,
    fun hlinks path hunnamed => definitionPlaces_eq_filesWith (hlisted.isDirectory_eq ▸ ht) hnames'
      (unlinked_of_relisted hlinks hlisted) (hunnamed.of_relisted hlisted) hfound⟩

/-- A file beside a directory whose name goes on after that of the directory: as texts, the paths
would come in the other order. -/
theorem definitionFiles_in_path_order_hyphen :
    let tree := directory [("a-b.yaml", text ""),
      ("a", directory [("z.yml", text ""), ("notes.txt", binary)])]
    let listed := directory [("a", directory [("notes.txt", binary), ("z.yml", text "")]),
      ("a-b.yaml", text "")]
    tree.NamesDistinct ∧ Relisted tree listed ∧ DirectoriesUnnamed "d" tree ∧
      filesWith endings tree = .ok [(["a", "z.yml"], text ""), (["a-b.yaml"], text "")] ∧
      definitionPlaces "d" listed = [("d/a/z.yml", text ""), ("d/a-b.yaml", text "")] := by
  intro tree listed
  have hnames : tree.NamesDistinct := by
    refine .listing (by decide) ?_
    simp only [List.forall_mem_cons]
    refine ⟨.text _, .listing (by decide) ?_, by simp⟩
    simp only [List.forall_mem_cons]
    exact ⟨.text _, .binary, by simp⟩
  have hlisted : Relisted tree listed := by
    have hinner : Relisted (directory [("z.yml", text ""), ("notes.txt", binary)])
        (directory [("notes.txt", binary), ("z.yml", text "")]) := .perm (.swap _ _ _)
    have houter := @Relisted.entry [("a-b.yaml", text "")] [] none "a" _ _ hinner
    exact houter.trans (.perm (.swap _ _ _))
  have hunnamed : DirectoriesUnnamed "d" tree := by
    intro place u hu hdirectory name hplace
    have hmem := mem_cons_reached_iff.mpr hu
    simp only [tree, reached, reachedOfEntries, FileTree.under, List.map_cons, List.map_nil,
      List.cons_append, List.nil_append, List.mem_cons, List.not_mem_nil, or_false,
      Prod.mk.injEq] at hmem
    obtain ⟨rfl, rfl⟩ | ⟨-, rfl⟩ | ⟨rfl, rfl⟩ | ⟨-, rfl⟩ | ⟨-, rfl⟩ := hmem
    · have hroot : nameAt? "d" [] = some "d" := by
        rw [nameAt?, List.getLast?_nil, lastName?, pathNames_d]
        decide
      obtain rfl := Option.some.inj (hroot.symm.trans hplace)
      exact mt isDefinitionName_iff.mp (by decide)
    · cases hdirectory
    · obtain rfl := Option.some.inj hplace
      exact mt isDefinitionName_iff.mp (by decide)
    · cases hdirectory
    · cases hdirectory
  have hlinks : tree.Unlinked := by
    intro place u hu
    have hmem := mem_cons_reached_iff.mpr hu
    simp [tree, reached, reachedOfEntries, FileTree.under] at hmem
  have hfiles : filesWith endings listed =
      .ok [(["a", "z.yml"], text ""), (["a-b.yaml"], text "")] := by
    have horder : comesBefore ["a", "z.yml"] ["a-b.yaml"] = true := by decide
    simp [filesWith, filesOfEntries, listed, isDirectory, extension?, endings,
      List.mergeSort_of_pairwise, horder, ok_bind, pure, Except.pure]
  obtain ⟨hsame, -, -, hwalk⟩ := (definitionFiles_in_path_order rfl hnames hlisted).2 _ hfiles
  have hfirst : placePath "d" ["a", "z.yml"] = "d/a/z.yml" := by decide +kernel
  have hsecond : placePath "d" ["a-b.yaml"] = "d/a-b.yaml" := by decide +kernel
  refine ⟨hnames, hlisted, hunnamed, hsame, ?_⟩
  rw [hwalk hlinks "d" hunnamed, List.map_cons, List.map_cons, List.map_nil, hfirst, hsecond]

end SborSchema.Session
