/-
# The order of files

Places are compared name by name, which is the order of lists of names. A walk
through a tree whose directories have distinct names goes through the places in
this order, although it only ever sorts the names of one directory: what is below
a directory comes right after it, before the next name. A search for files, which
sorts all that is found below a directory at every directory, comes to the same
order, and the order in which each directory lists its entries does not matter.

Key definitions: `FileTree.NamesDistinct`, `FileTree.Ascending`, `FileTree.Relisted`.
Key theorems: `FileTree.comesBefore_iff_le`, `FileTree.walk_ascending`,
`FileTree.filesWith_ascending`, `FileTree.filter_walk_eq_filesWith`,
`FileTree.Relisted.filesWith_eq`.
-/
import Mathlib.Data.List.Lex
import Mathlib.Data.List.Sort
import SborSchema.Proofs.FileTree.Search

namespace SborSchema.FileTree

/-- The entries of each directory in the tree have distinct names. -/
inductive NamesDistinct : FileTree → Prop
  | text (content : String) : NamesDistinct (text content)
  | binary : NamesDistinct binary
  | closed (isDirectory : Bool) (fault : Fault) : NamesDistinct (closed isDirectory fault)
  | listing {entries : List (String × FileTree)} {fault : Option Fault}
      (hnodup : (entries.map (·.1)).Nodup) (hentries : ∀ e ∈ entries, NamesDistinct e.2) :
      NamesDistinct (listing entries fault)
  | link {t : FileTree} (h : NamesDistinct t) : NamesDistinct (link t)

theorem walkEntries_eq_map (entries : List (String × FileTree)) :
    walkEntries entries = entries.map fun e => (e.1, under e.1 e.2.walk) := by
  induction entries with
  | nil => rfl
  | cons e rest ih => rw [walkEntries, ih, List.map_cons, under]

theorem reachedOfEntries_eq_flatMap (entries : List (String × FileTree)) :
    reachedOfEntries entries = entries.flatMap fun e => under e.1 (([], e.2) :: e.2.reached) := by
  induction entries with
  | nil => rfl
  | cons e rest ih => rw [reachedOfEntries, ih, List.flatMap_cons]

/-! ### The order of places -/

/-- One place comes before another in the order of lists of names. -/
theorem comesBefore_iff_le : ∀ {place place' : List String},
    comesBefore place place' = true ↔ place ≤ place'
  | [], [] => by simp [comesBefore]
  | [], b :: bs => by simp [comesBefore, le_of_lt (List.nil_lt_cons b bs)]
  | a :: as, [] => by simp [comesBefore, not_le_of_gt (List.nil_lt_cons a as)]
  | a :: as, b :: bs => by
    rw [comesBefore, le_iff_lt_or_eq, List.cons_lt_cons_iff, List.cons.injEq]
    by_cases hab : a = b
    · rw [if_pos hab, comesBefore_iff_le, le_iff_lt_or_eq]
      simp [hab]
    · rw [if_neg hab]
      simp [hab]

/-- The list is ascending by place, so each place stands in it once. -/
def Ascending (list : List (List String × FileTree)) : Prop := (list.map (·.1)).Pairwise (· < ·)

theorem map_under (name : String) (list : List (List String × FileTree)) :
    (under name list).map (·.1) = (list.map (·.1)).map (List.cons name) := by
  rw [under, List.map_map, List.map_map]
  rfl

theorem Ascending.under {list : List (List String × FileTree)} (h : Ascending list)
    (name : String) : Ascending (under name list) := by
  rw [Ascending, map_under]
  exact h.map (List.cons name) fun place place' hlt => List.cons_lt_cons_iff.mpr (.inr ⟨rfl, hlt⟩)

theorem Ascending.filter {list : List (List String × FileTree)} (h : Ascending list)
    (p : List String × FileTree → Bool) : Ascending (list.filter p) :=
  h.sublist (List.filter_sublist.map _)

/-- An ascending list is determined by its members. -/
theorem Ascending.eq_of_perm {list list' : List (List String × FileTree)} (h : Ascending list)
    (h' : Ascending list') (hperm : list.Perm list') : list = list' := by
  refine hperm.eq_of_pairwise (fun a b _ _ hab hba => ?_) (List.pairwise_map.mp h)
    (List.pairwise_map.mp h')
  exact absurd hba (lt_asymm hab)

/-- **A walk goes through the places in their order.** -/
theorem walk_ascending {t : FileTree} (h : t.NamesDistinct) : Ascending t.walk := by
  induction h with
  | text | binary | closed | link => exact List.pairwise_singleton _ _
  | @listing entries fault hnodup _ ih =>
    have hnames : ((walkEntries entries).map (·.1)).Nodup := by
      rw [walkEntries_eq_map, List.map_map]
      exact hnodup
    have hentries : ∀ e ∈ (walkEntries entries).mergeSort fun a b => decide (a.1 ≤ b.1),
        ∃ f ∈ entries, e = (f.1, under f.1 f.2.walk) := by
      intro e he
      rw [List.mem_mergeSort, walkEntries_eq_map, List.mem_map] at he
      obtain ⟨f, hf, rfl⟩ := he
      exact ⟨f, hf, rfl⟩
    have hbelow : ∀ e ∈ ((walkEntries entries).mergeSort fun a b => decide (a.1 ≤ b.1)),
        ∀ place ∈ e.2.map (·.1), ∃ rest, place = e.1 :: rest := by
      intro e he place hplace
      obtain ⟨f, -, rfl⟩ := hentries e he
      obtain ⟨⟨_, u⟩, hmem, rfl⟩ := List.mem_map.mp hplace
      obtain ⟨rest, rfl, -⟩ := mem_under.mp hmem
      exact ⟨rest, rfl⟩
    rw [walk, Ascending, List.map_cons, List.map_flatMap, List.pairwise_cons, List.pairwise_flatMap]
    refine ⟨fun place hplace => ?_, fun e he => ?_, (ascending_mergeSort hnames).imp_of_mem ?_⟩
    · obtain ⟨e, he, hplace⟩ := List.mem_flatMap.mp hplace
      obtain ⟨rest, rfl⟩ := hbelow e he place hplace
      exact List.nil_lt_cons _ _
    · -- Below one name the places are in order by induction.
      obtain ⟨f, hf, rfl⟩ := hentries e he
      exact (ih f hf).under f.1
    · -- Below different names they are in the order of the names.
      intro e e' he he' hlt place hplace place' hplace'
      obtain ⟨rest, rfl⟩ := hbelow e he place hplace
      obtain ⟨rest', rfl⟩ := hbelow e' he' place' hplace'
      exact List.cons_lt_cons_iff.mpr (.inl hlt)

/-- Under distinct names, names lead to each place once. -/
theorem nodup_reached {t : FileTree} (h : t.NamesDistinct) : (t.reached.map (·.1)).Nodup := by
  induction h with
  | text | binary | closed => exact List.nodup_nil
  | link _ ih => exact ih
  | @listing entries fault hnodup _ ih =>
    have hne (u : FileTree) : [] ∉ u.reached.map (·.1) := by
      intro hmem
      obtain ⟨⟨place, v⟩, hv, hplace⟩ := List.mem_map.mp hmem
      exact (mem_reached_iff.mp hv).1 hplace
    rw [reached, reachedOfEntries_eq_flatMap, List.map_flatMap, List.nodup_flatMap]
    refine ⟨fun e he => ?_, (List.pairwise_map.mp hnodup).imp fun hne => ?_⟩
    · rw [map_under]
      exact (List.nodup_cons.mpr ⟨hne e.2, ih e he⟩).map List.cons_injective
    · -- Places under different names differ in their first name.
      intro place hplace hplace'
      simp only [map_under] at hplace hplace'
      obtain ⟨_, -, rfl⟩ := List.mem_map.mp hplace
      obtain ⟨_, -, heq⟩ := List.mem_map.mp hplace'
      exact hne (List.cons.inj heq).1.symm

variable {endings : List String} {t : FileTree} {found : List (List String × FileTree)}

/-- The files with an ending are found in the order of their places. -/
theorem filesWith_sorted : ∀ {t : FileTree} {found : List (List String × FileTree)},
    t.filesWith endings = .ok found → (found.map (·.1)).Pairwise (· ≤ ·)
  | text _, _, h | binary, _, h => by
    cases h
    exact .nil
  | closed isDirectory _, _, h => by
    cases isDirectory <;> cases h
    exact .nil
  | link t, _, h => filesWith_sorted (t := t) h
  | listing _ _, _, h => by
    have horder : (fun a b : List String × FileTree => comesBefore a.1 b.1) =
        fun a b => decide (a.1 ≤ b.1) := by
      funext a b
      rw [Bool.eq_iff_iff, comesBefore_iff_le, decide_eq_true_eq]
    obtain ⟨-, inside, -, rfl⟩ := filesWith_listing_eq_ok.mp h
    rw [horder, List.pairwise_map]
    exact List.pairwise_mergeSort' (Order.Preimage Prod.fst (· ≤ ·)) _

/-- If names are distinct, each of them is found once. -/
theorem filesWith_ascending (h : t.NamesDistinct) (hfound : t.filesWith endings = .ok found) :
    Ascending found := by
  have hnodup : (found.map (·.1)).Nodup := ((filesWith_perm hfound).map _).nodup_iff.mpr
    ((nodup_reached h).sublist (List.filter_sublist.map _))
  exact (filesWith_sorted hfound).imp₂ (fun _ _ hle hne => lt_of_le_of_ne hle hne) hnodup

/-- **A walk that passes over all but the files with an ending goes through them in the order
in which a search finds them**, unless some stand behind links. -/
theorem filter_walk_eq_filesWith (h : t.NamesDistinct) (hlinks : t.Unlinked)
    (hfound : t.filesWith endings = .ok found) : t.walk.filter (isFileWith endings) = found := by
  have hplaces := cons_reached_perm t
  rw [hlinks.linked_eq_nil, List.append_nil] at hplaces
  have hroot : ¬ isFileWith endings ([], t) = true := by simp [isFileWith]
  have hfiles := ((walk_perm t).trans hplaces.symm).filter (isFileWith endings)
  rw [List.filter_cons_of_neg hroot] at hfiles
  exact ((walk_ascending h).filter _).eq_of_perm (filesWith_ascending h hfound)
    (hfiles.trans (filesWith_perm hfound).symm)

/-! ### The order of entries in a directory -/

/-- The same tree, whose directories may list their entries in another order. -/
inductive Relisted : FileTree → FileTree → Prop
  | refl (t : FileTree) : Relisted t t
  | perm {entries entries' : List (String × FileTree)} {fault : Option Fault}
      (h : entries.Perm entries') : Relisted (listing entries fault) (listing entries' fault)
  | entry {before after : List (String × FileTree)} {fault : Option Fault} {name : String}
      {t t' : FileTree} (h : Relisted t t') :
      Relisted (listing (before ++ (name, t) :: after) fault)
        (listing (before ++ (name, t') :: after) fault)
  | link {t t' : FileTree} (h : Relisted t t') : Relisted (link t) (link t')
  | trans {t u v : FileTree} (h : Relisted t u) (h' : Relisted u v) : Relisted t v

namespace Relisted

variable {t' : FileTree}

theorem isDirectory_eq (h : Relisted t t') : t.isDirectory = t'.isDirectory := by
  induction h with
  | refl | perm | entry => rfl
  | link _ ih => exact ih
  | trans _ _ ih ih' => exact ih.trans ih'

/-- What is no directory stays as it is. -/
theorem eq_of_not_isDirectory (h : Relisted t t') (ht : t.isDirectory = false) : t = t' := by
  induction h with
  | refl => rfl
  | perm | entry => cases ht
  | link _ ih => rw [ih ht]
  | trans h _ ih ih' => exact (ih ht).trans (ih' (h.isDirectory_eq ▸ ht))

theorem listingFault?_eq (h : Relisted t t') : t.listingFault? = t'.listingFault? := by
  induction h with
  | refl | perm | entry => rfl
  | link _ ih => exact ih
  | trans _ _ ih ih' => exact ih.trans ih'

/-- The names stay distinct. -/
theorem namesDistinct (h : Relisted t t') (ht : t.NamesDistinct) : t'.NamesDistinct := by
  induction h with
  | refl => exact ht
  | perm hperm =>
    cases ht with
    | listing hnodup hentries =>
    exact .listing ((hperm.map _).nodup_iff.mp hnodup)
      fun e he => hentries e (hperm.mem_iff.mpr he)
  | entry _ ih =>
    cases ht with
    | listing hnodup hentries =>
    refine .listing (by simpa using hnodup) ?_
    rw [List.forall_mem_append, List.forall_mem_cons] at hentries ⊢
    exact ⟨hentries.1, ih hentries.2.1, hentries.2.2⟩
  | link _ ih =>
    cases ht with
    | link ht => exact .link (ih ht)
  | trans _ _ ih ih' => exact ih' (ih ht)

theorem symm (h : Relisted t t') : Relisted t' t := by
  induction h with
  | refl t => exact .refl t
  | perm hperm => exact .perm hperm.symm
  | entry _ ih => exact .entry ih
  | link _ ih => exact .link ih
  | trans _ _ ih ih' => exact ih'.trans ih

/-- Where there is something in one tree, the other one has the same up to the order of entries. -/
theorem exists_at (h : Relisted t t') : ∀ {place : List String} {u : FileTree}, At t place u →
    ∃ u', At t' place u' ∧ Relisted u u' := by
  induction h with
  | refl t => exact fun hu => ⟨_, hu, .refl _⟩
  | perm hperm =>
    intro place u hu
    cases hu with
    | here => exact ⟨_, .here _, .perm hperm⟩
    | entry hmem hu => exact ⟨_, .entry (hperm.mem_iff.mp hmem) hu, .refl _⟩
  | @entry before after fault name t t' h ih =>
    intro place u hu
    cases hu with
    | here => exact ⟨_, .here _, .entry h⟩
    | entry hmem hu =>
      rcases List.mem_append.mp hmem with hmem | hmem
      · exact ⟨_, .entry (List.mem_append_left _ hmem) hu, .refl _⟩
      rcases List.mem_cons.mp hmem with heq | hmem
      · obtain ⟨rfl, rfl⟩ := Prod.mk.inj heq
        obtain ⟨u', hu', hsame⟩ := ih hu
        exact ⟨u', .entry (List.mem_append_right _ List.mem_cons_self) hu', hsame⟩
      · exact ⟨_, .entry (List.mem_append_right _ (List.mem_cons_of_mem _ hmem)) hu, .refl _⟩
  | link h ih =>
    intro place u hu
    cases hu with
    | here => exact ⟨_, .here _, .link h⟩
    | link hu =>
      obtain ⟨u', hu', hsame⟩ := ih hu
      exact ⟨u', .link hu', hsame⟩
  | trans _ _ ih ih' =>
    intro place u hu
    obtain ⟨u', hu', hsame⟩ := ih hu
    obtain ⟨u'', hu'', hsame'⟩ := ih' hu'
    exact ⟨u'', hu'', hsame.trans hsame'⟩

/-- A link stays a link. -/
theorem exists_link (h : Relisted t (.link t')) : ∃ u, t = .link u ∧ Relisted t' u := by
  generalize hlink : FileTree.link t' = v at h
  induction h generalizing t' with
  | refl => exact ⟨t', hlink.symm, .refl _⟩
  | perm | entry => cases hlink
  | link h _ =>
    cases hlink
    exact ⟨_, rfl, h.symm⟩
  | trans _ _ ih ih' =>
    obtain ⟨u, rfl, hu⟩ := ih' hlink
    obtain ⟨u', rfl, hu'⟩ := ih rfl
    exact ⟨u', rfl, hu.trans hu'⟩

/-- The same directories can be listed. -/
theorem listable (h : Relisted t t') (ht : t.Listable) : t'.Listable := by
  intro place u hu
  obtain ⟨u', hu', hsame⟩ := h.symm.exists_at hu
  rw [hsame.listingFault?_eq]
  exact ht place u' hu'

/-- A tree and the files below it, as far as they are at places of some sort. -/
def files (p : List String → Bool) (t : FileTree) : List (List String × FileTree) :=
  (([], t) :: t.reached).filter fun e => !e.2.isDirectory && p e.1

/-- The files of a directory are those of its entries; the directory itself is none. -/
theorem files_listing (entries : List (String × FileTree)) (fault : Option Fault)
    (p : List String → Bool) : files p (listing entries fault) =
      entries.flatMap fun e => under e.1 (files (fun place => p (e.1 :: place)) e.2) := by
  rw [files, List.filter_cons_of_neg (by simp [isDirectory]), reached, reachedOfEntries_eq_flatMap,
    List.filter_flatMap]
  simp only [files, under, List.filter_map, Function.comp_def]

/-- The same files are at the same places, whichever places are looked at. -/
theorem files_perm (h : Relisted t t') :
    ∀ p : List String → Bool, (files p t).Perm (files p t') := by
  induction h with
  | refl => exact fun _ => .refl _
  | perm hperm =>
    intro p
    rw [files_listing, files_listing]
    exact hperm.flatMap_right _
  | @entry before after fault name t t' _ ih =>
    intro p
    rw [files_listing, files_listing, List.flatMap_append, List.flatMap_append, List.flatMap_cons,
      List.flatMap_cons]
    exact (((ih fun place => p (name :: place)).map _).append_right _).append_left _
  | @link t t' h ih =>
    intro p
    cases hdirectory : t.isDirectory with
    | true =>
      have hdirectory' : t'.isDirectory = true := h.isDirectory_eq ▸ hdirectory
      have hfiles := ih p
      rw [files, files, List.filter_cons_of_neg (by simp [hdirectory]),
        List.filter_cons_of_neg (by simp [hdirectory'])] at hfiles
      rw [files, files, List.filter_cons_of_neg (by simp [isDirectory, hdirectory]),
        List.filter_cons_of_neg (by simp [isDirectory, hdirectory'])]
      exact hfiles
    | false =>
      obtain rfl := h.eq_of_not_isDirectory hdirectory
      exact .refl _
  | trans _ _ ih ih' => exact fun p => (ih p).trans (ih' p)

/-- **The files with an ending are found in one order, however directories list their
entries**, or not found if a directory cannot be listed. -/
theorem filesWith_eq (h : Relisted t t') (ht : t.NamesDistinct)
    (hfound : t.filesWith endings = .ok found) : t'.filesWith endings = .ok found := by
  obtain ⟨found', hfound'⟩ : ∃ found', t'.filesWith endings = .ok found' :=
    exists_filesWith_iff.mpr (h.listable (exists_filesWith_iff.mp ⟨found, hfound⟩))
  have hroot (t : FileTree) : (([], t) :: t.reached).filter (isFileWith endings) =
      t.reached.filter (isFileWith endings) :=
    List.filter_cons_of_neg (by simp [isFileWith])
  have hfiles := h.files_perm fun place => (place.getLast?.bind extension?).any endings.contains
  have hsame : (t.reached.filter (isFileWith endings)).Perm
      (t'.reached.filter (isFileWith endings)) := by
    rw [← hroot, ← hroot]
    exact hfiles
  rw [hfound', (filesWith_ascending (h.namesDistinct ht) hfound').eq_of_perm
    (filesWith_ascending ht hfound)
    ((filesWith_perm hfound').trans (hsame.symm.trans (filesWith_perm hfound).symm))]

end Relisted

end SborSchema.FileTree
