/-
# What a search finds

A search that succeeds finds the files with an ending among all places that names
lead to, through links also. It fails if a directory on its way cannot be listed,
whatever that directory is called, and with a fault of such a directory. Which names
have an ending is decided by what follows their last point.

Key definitions: `FileTree.isFileWith`, `Registry.IsDefinitionName`.
Key theorems: `FileTree.filesWith_perm`, `FileTree.exists_fault_of_filesWith`,
`FileTree.exists_filesWith_iff`, `FileTree.extension?_eq_some`,
`Registry.isDefinitionName_iff`, `Registry.mem_definitionFiles`.
-/
import Mathlib.Data.List.Infix
import Mathlib.Data.List.TakeWhile
import Mathlib.Data.String.Basic
import SborSchema.Proofs.FileTree
import SborSchema.Proofs.Lists
import SborSchema.Proofs.Outcome
import SborSchema.Registry.Loading

namespace SborSchema

namespace FileTree

variable {endings : List String} {t : FileTree} {entries : List (String × FileTree)}
  {found : List (List String × FileTree)} {f : Fault}

/-- Whether it is a file whose name has one of the endings. -/
def isFileWith (endings : List String) (e : List String × FileTree) : Bool :=
  !e.2.isDirectory && (e.1.getLast?.bind extension?).any endings.contains

/-- A directory is no file. -/
theorem isFileWith_of_isDirectory {e : List String × FileTree} (h : e.2.isDirectory = true) :
    isFileWith endings e = false := by
  rw [isFileWith, h]
  rfl

/-- Seen from further out, a name stays the last one on a place. -/
theorem isFileWith_cons {e : List String × FileTree} (name : String) (h : e.1 ≠ []) :
    isFileWith endings (name :: e.1, e.2) = isFileWith endings e := by
  obtain ⟨first, rest, hplace⟩ := List.exists_cons_of_ne_nil h
  rw [isFileWith, isFileWith, hplace, List.getLast?_cons_cons]

/-! ### Steps of a search -/

/-- A directory that is searched was listed to its end. -/
theorem filesWith_listing_eq_ok {fault : Option Fault} :
    filesWith endings (listing entries fault) = .ok found ↔ fault = none ∧
      ∃ inside, filesOfEntries endings entries = .ok inside ∧
        inside.mergeSort (fun a b => comesBefore a.1 b.1) = found := by
  rw [filesWith, bind_eq_ok]
  cases fault with
  | none => simp only [true_and, pure, Except.pure, Except.ok.injEq]
  | some f =>
    simp only [throw, throwThe, MonadExceptOf.throw, reduceCtorEq, and_false, exists_false,
      false_and]

theorem filesWith_listing_eq_error {fault : Option Fault} :
    filesWith endings (listing entries fault) = .error f ↔
      filesOfEntries endings entries = .error f ∨
        fault = some f ∧ ∃ inside, filesOfEntries endings entries = .ok inside := by
  rw [filesWith, bind_eq_error]
  cases fault with
  | none => simp only [pure, Except.pure, reduceCtorEq, and_false, exists_false, false_and]
  | some f' =>
    simp only [throw, throwThe, MonadExceptOf.throw, Except.error.injEq, Option.some.injEq,
      and_comm, exists_and_left]

/-- In what is no directory there is nothing to find. -/
theorem filesWith_of_not_isDirectory : ∀ {t : FileTree}, t.isDirectory = false →
    filesWith endings t = .ok []
  | text _, _ | binary, _ | closed false _, _ => rfl
  | link t, h => filesWith_of_not_isDirectory (t := t) h

/-- An entry is a file with an ending itself, or there are such files below it. -/
theorem filesOfEntries_cons (name : String) (t : FileTree) (rest : List (String × FileTree)) :
    filesOfEntries endings ((name, t) :: rest) = (do
      let inside ← filesWith endings t
      let others ← filesOfEntries endings rest
      return [([name], t)].filter (isFileWith endings) ++ under name inside ++ others) := by
  rw [filesOfEntries]
  cases hdirectory : t.isDirectory with
  | true =>
    have hnone : [([name], t)].filter (isFileWith endings) = [] :=
      List.filter_eq_nil_iff.mpr (by simp [isFileWith_of_isDirectory, hdirectory])
    rw [if_pos rfl, hnone]
    rfl
  | false =>
    have hown : under name (if (extension? name).any endings.contains then [([], t)] else []) =
        [([name], t)].filter (isFileWith endings) := by
      have hfile : isFileWith endings ([name], t) = (extension? name).any endings.contains := by
        rw [isFileWith, hdirectory]
        rfl
      rw [List.filter_cons, List.filter_nil, hfile]
      split <;> rfl
    rw [if_neg Bool.false_ne_true, filesWith_of_not_isDirectory hdirectory, ok_bind, ← hown]
    simp only [under, List.map_nil, List.append_nil]
    rfl

/-! ### What is found -/

mutual

/-- **A search finds the files among the places that names lead to.** -/
theorem filesWith_perm : ∀ {t : FileTree} {found : List (List String × FileTree)},
    t.filesWith endings = .ok found → found.Perm (t.reached.filter (isFileWith endings))
  | text _, _, h | binary, _, h | closed false _, _, h => by
    cases h
    exact .refl _
  | link t, _, h => filesWith_perm (t := t) h
  | listing entries fault, _, h => by
    obtain ⟨-, inside, hinside, rfl⟩ := filesWith_listing_eq_ok.mp h
    exact (List.mergeSort_perm _ _).trans (filesOfEntries_perm hinside)

theorem filesOfEntries_perm :
    ∀ {entries : List (String × FileTree)} {found : List (List String × FileTree)},
      filesOfEntries endings entries = .ok found →
        found.Perm ((reachedOfEntries entries).filter (isFileWith endings))
  | [], _, h => by
    cases h
    exact .refl _
  | (name, t) :: rest, found, h => by
    rw [filesOfEntries_cons] at h
    obtain ⟨inside, hinside, h⟩ := bind_eq_ok.mp h
    obtain ⟨others, hothers, h⟩ := bind_eq_ok.mp h
    cases h
    have hbelow : (under name t.reached).filter (isFileWith endings) =
        under name (t.reached.filter (isFileWith endings)) := by
      rw [under, List.filter_map, under]
      congr 1
      exact List.filter_congr fun e he => isFileWith_cons name (mem_reached_iff.mp he).1
    have hsplit : under name (([], t) :: t.reached) = [([name], t)] ++ under name t.reached := rfl
    rw [reachedOfEntries, hsplit, List.filter_append, List.filter_append, hbelow]
    exact (((filesWith_perm hinside).map _).append_left _).append (filesOfEntries_perm hothers)

end

/-! ### Directories that cannot be listed -/

mutual

/-- **A search fails with the fault of a directory that names lead to.** -/
theorem exists_fault_of_filesWith : ∀ {t : FileTree}, t.filesWith endings = .error f →
    ∃ place u, At t place u ∧ u.listingFault? = some f
  | text _, h | binary, h | closed false _, h => by cases h
  | closed true f', h => by
    cases h
    exact ⟨[], _, .here _, rfl⟩
  | link t, h => by
    obtain ⟨place, u, hu, hfault⟩ := exists_fault_of_filesWith (t := t) h
    cases place with
    | nil =>
      cases hu
      exact ⟨[], _, .here _, hfault⟩
    | cons name place => exact ⟨_, u, .link hu, hfault⟩
  | listing entries fault, h => by
    rcases filesWith_listing_eq_error.mp h with h | ⟨rfl, -⟩
    · obtain ⟨name, t, place, u, hmem, hu, hfault⟩ := exists_fault_of_filesOfEntries h
      exact ⟨name :: place, u, .entry hmem hu, hfault⟩
    · exact ⟨[], _, .here _, rfl⟩

theorem exists_fault_of_filesOfEntries : ∀ {entries : List (String × FileTree)},
    filesOfEntries endings entries = .error f →
      ∃ name t place u, (name, t) ∈ entries ∧ At t place u ∧ u.listingFault? = some f
  | [], h => by cases h
  | (name, t) :: rest, h => by
    rw [filesOfEntries_cons] at h
    rcases bind_eq_error.mp h with h | ⟨_, -, h⟩
    · obtain ⟨place, u, hu, hfault⟩ := exists_fault_of_filesWith h
      exact ⟨name, t, place, u, List.mem_cons_self, hu, hfault⟩
    · obtain ⟨name', t', place, u, hmem, hu⟩ :=
        exists_fault_of_filesOfEntries (bind_pure_eq_error.mp h)
      exact ⟨name', t', place, u, List.mem_cons_of_mem _ hmem, hu⟩

end

/-- In entries that are searched, each directory is searched. -/
theorem exists_filesWith_of_filesOfEntries : ∀ {entries : List (String × FileTree)}
    {found : List (List String × FileTree)}, filesOfEntries endings entries = .ok found →
      ∀ e ∈ entries, ∃ inside, filesWith endings e.2 = .ok inside
  | [], _, _ => by simp
  | (name, t) :: rest, _, h => by
    rw [filesOfEntries_cons] at h
    obtain ⟨inside, hinside, h⟩ := bind_eq_ok.mp h
    obtain ⟨others, hothers, -⟩ := bind_eq_ok.mp h
    exact List.forall_mem_cons.mpr ⟨⟨inside, hinside⟩, exists_filesWith_of_filesOfEntries hothers⟩

theorem listingFault?_eq_none : ∀ {t : FileTree} {found : List (List String × FileTree)},
    t.filesWith endings = .ok found → t.listingFault? = none
  | text _, _, _ | binary, _, _ | closed false _, _, _ => rfl
  | link t, _, h => listingFault?_eq_none (t := t) h
  | listing _ _, _, h => (filesWith_listing_eq_ok.mp h).1

/-- **A search succeeds if and only if every directory that names lead to can be listed.** -/
theorem exists_filesWith_iff : (∃ found, t.filesWith endings = .ok found) ↔ t.Listable := by
  constructor
  · rintro ⟨found, hfound⟩ place u hu
    induction hu generalizing found with
    | here t => exact listingFault?_eq_none hfound
    | entry hmem _ ih =>
      obtain ⟨-, inside, hinside, -⟩ := filesWith_listing_eq_ok.mp hfound
      obtain ⟨found', hfound'⟩ := exists_filesWith_of_filesOfEntries hinside _ hmem
      exact ih found' hfound'
    | link _ ih => exact ih found hfound
  · intro h
    cases hfound : t.filesWith endings with
    | ok found => exact ⟨found, rfl⟩
    | error f =>
      obtain ⟨place, u, hu, hfault⟩ := exists_fault_of_filesWith hfound
      exact absurd ((h place u hu).symm.trans hfault) (by simp)

/-! ### Endings -/

/-- What follows the characters before the first point starts with it. -/
theorem eq_append_of_drop_takeWhile {cs rest : List Char} {c : Char}
    (h : cs.drop (cs.takeWhile (· ≠ '.')).length = c :: rest) :
    c = '.' ∧ cs = cs.takeWhile (· ≠ '.') ++ '.' :: rest := by
  have hsplit : cs = cs.takeWhile (· ≠ '.') ++ c :: rest :=
    h ▸ List.prefix_append_drop (List.takeWhile_prefix _)
  have hrest : cs.dropWhile (· ≠ '.') = c :: rest :=
    List.append_cancel_left (List.takeWhile_append_dropWhile.trans hsplit)
  have hpoint := List.head?_dropWhile_not (· ≠ '.') cs
  rw [hrest] at hpoint
  obtain rfl : c = '.' := by simpa using hpoint
  exact ⟨rfl, hsplit⟩

/-- The ending of a name is what follows its last point, unless nothing stands before it. -/
theorem extension?_eq_some {name ending : String} :
    extension? name = some ending ↔ name ≠ ".." ∧ '.' ∉ ending.toList ∧
      ∃ stem, stem ≠ "" ∧ name = stem ++ "." ++ ending := by
  constructor
  · intro h
    simp only [extension?] at h
    split at h
    · next c d rest hrest =>
      split at h
      · cases h
      · next hdots =>
        obtain rfl := Option.some.inj h
        obtain ⟨-, hname⟩ := eq_append_of_drop_takeWhile hrest
        have hfree : '.' ∉ name.toList.reverse.takeWhile (· ≠ '.') :=
          fun hmem => by simpa using List.mem_takeWhile_imp hmem
        refine ⟨hdots, by simpa using hfree, String.ofList (d :: rest).reverse, by simp, ?_⟩
        refine String.toList_inj.mp (List.reverse_inj.mp (hname.trans ?_))
        simp
    · cases h
  · rintro ⟨hdots, hfree, stem, hstem, hname⟩
    have hreverse : name.toList.reverse = ending.toList.reverse ++ '.' :: stem.toList.reverse := by
      simp [hname]
    have htake : name.toList.reverse.takeWhile (· ≠ '.') = ending.toList.reverse := by
      have hending : ∀ c ∈ ending.toList.reverse, decide (c ≠ '.') = true := by
        intro c hc
        exact decide_eq_true fun heq => hfree (heq ▸ List.mem_reverse.mp hc)
      rw [hreverse]
      exact takeWhile_append_exact hending (by simp)
    obtain ⟨d, rest, hrest⟩ : ∃ d rest, stem.toList.reverse = d :: rest :=
      List.exists_cons_of_ne_nil (by simpa using hstem)
    simp only [extension?, htake]
    rw [hreverse, List.drop_left, hrest]
    simp [hdots]

end FileTree

namespace Registry

open FileTree

/-- The name of a file of definitions: one of the two endings after something else. -/
def IsDefinitionName (name : String) : Prop :=
  ∃ stem, stem ≠ "" ∧ (name = stem ++ ".yaml" ∨ name = stem ++ ".yml")

/-- The names of files of definitions are those with one of the endings. -/
theorem isDefinitionName_iff {name : String} :
    IsDefinitionName name ↔ (extension? name).any endings.contains = true := by
  have hendings (ending : String) :
      endings.contains ending = true ↔ ending = "yaml" ∨ ending = "yml" := by
    simp [endings]
  have hyaml (stem : String) : stem ++ "." ++ "yaml" = stem ++ ".yaml" := String.append_assoc
  have hyml (stem : String) : stem ++ "." ++ "yml" = stem ++ ".yml" := String.append_assoc
  have hlonger (stem ending : String) (h : 2 < ending.length) : stem ++ ending ≠ ".." := by
    intro heq
    have hlength : stem.length + ending.length = 2 := by rw [← String.length_append, heq]; rfl
    omega
  simp only [Option.any_eq_true, extension?_eq_some, hendings, IsDefinitionName]
  constructor
  · rintro ⟨stem, hstem, rfl | rfl⟩
    · exact ⟨"yaml", ⟨hlonger _ _ (by decide), by decide, stem, hstem,
        (hyaml stem).symm⟩, .inl rfl⟩
    · exact ⟨"yml", ⟨hlonger _ _ (by decide), by decide, stem, hstem,
        (hyml stem).symm⟩, .inr rfl⟩
  · rintro ⟨_, ⟨-, -, stem, hstem, rfl⟩, rfl | rfl⟩
    · exact ⟨stem, hstem, .inl (hyaml stem)⟩
    · exact ⟨stem, hstem, .inr (hyml stem)⟩

theorem any_endings_iff {name? : Option String} :
    (name?.bind extension?).any endings.contains = true ↔
      ∃ name, name? = some name ∧ IsDefinitionName name := by
  cases name? with
  | none => simp
  | some name => simp [isDefinitionName_iff]

/-- The files of definitions are the files below a directory whose names say so. -/
theorem mem_definitionFiles {t file : FileTree} {place : List String}
    {found : List (List String × FileTree)} (h : t.filesWith endings = .ok found) :
    (place, file) ∈ found ↔ At t place file ∧ file.isDirectory = false ∧
      ∃ name, place.getLast? = some name ∧ IsDefinitionName name := by
  rw [(filesWith_perm h).mem_iff, List.mem_filter, mem_reached_iff, isFileWith, Bool.and_eq_true,
    any_endings_iff, Bool.not_eq_eq_eq_not, Bool.not_true, and_assoc]
  refine and_iff_right_of_imp ?_
  rintro ⟨-, -, name, hname, -⟩ rfl
  cases hname

end Registry

end SborSchema
