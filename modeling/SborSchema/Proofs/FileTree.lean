/-
# Places in directories

Links are followed by a search and not by a walk, so there are two lists of places:
those that a walk comes to, and those that names lead to through links also. The
second are the first ones and what stands behind links. A walk comes to its places
in an order of its own.

Key definitions: `FileTree.At`, `FileTree.reached`, `FileTree.linked`, `FileTree.Unlinked`.
Key theorems: `FileTree.walk_perm`, `FileTree.mem_reached_iff`, `FileTree.cons_reached_perm`,
`FileTree.Unlinked.linked_eq_nil`.
-/
import Mathlib.Data.List.Perm.Basic
import SborSchema.FileTree

namespace SborSchema.FileTree

/-! ### Walks -/

mutual

/-- A walk comes to every place, once for each time it is listed. -/
theorem walk_perm : ∀ t : FileTree, t.walk.Perm t.places
  | text _ | binary | closed _ _ | link _ => .refl _
  | listing entries fault => by
    rw [walk, places]
    have hsorted := (List.mergeSort_perm (walkEntries entries) fun a b => decide (a.1 ≤ b.1))
    exact ((hsorted.flatMap_right _).trans (walkEntries_perm entries)).cons _

theorem walkEntries_perm : ∀ entries : List (String × FileTree),
    ((walkEntries entries).flatMap (·.2)).Perm (placesOfEntries entries)
  | [] => .refl _
  | (name, t) :: rest => by
    rw [walkEntries, List.flatMap_cons, placesOfEntries]
    exact ((walk_perm t).map _).append (walkEntries_perm rest)

end

/-- No place in the entries of a directory is without a name. -/
theorem ne_nil_of_mem_placesOfEntries {e : List String × FileTree} :
    ∀ {entries : List (String × FileTree)}, e ∈ placesOfEntries entries → e.1 ≠ []
  | (name, t) :: rest, h => by
    rw [placesOfEntries, List.mem_append] at h
    rcases h with h | h
    · obtain ⟨_, -, rfl⟩ := List.mem_map.mp h
      exact List.cons_ne_nil _ _
    · exact ne_nil_of_mem_placesOfEntries h

/-- At the place without a name is the tree itself. -/
theorem mem_places_nil {t u : FileTree} (h : ([], u) ∈ t.places) : u = t := by
  cases t with
  | text | binary | closed | link => simpa [places] using h
  | listing entries fault =>
    rw [places, List.mem_cons] at h
    rcases h with h | h
    · exact (Prod.mk.inj h).2
    · exact absurd rfl (ne_nil_of_mem_placesOfEntries h)

/-! ### Links -/

/-- What is listed in a tree, seen from the directory that has the tree under a name. -/
def under (name : String) (list : List (List String × FileTree)) :
    List (List String × FileTree) := list.map fun e => (name :: e.1, e.2)

theorem mem_under {name : String} {list : List (List String × FileTree)} {place : List String}
    {u : FileTree} :
    (place, u) ∈ under name list ↔ ∃ rest, place = name :: rest ∧ (rest, u) ∈ list := by
  simp only [under, List.mem_map, Prod.exists, Prod.mk.injEq]
  constructor
  · rintro ⟨rest, _, hmem, rfl, rfl⟩
    exact ⟨rest, rfl, hmem⟩
  · rintro ⟨rest, rfl, hmem⟩
    exact ⟨rest, u, hmem, rfl, rfl⟩

theorem isDirectory_target : ∀ t : FileTree, t.target.isDirectory = t.isDirectory
  | text _ | binary | closed _ _ | listing _ _ => rfl
  | link t => isDirectory_target t

/-- The fault at which the list of a directory breaks off; links are followed. -/
def listingFault? : FileTree → Option Fault
  | listing _ fault => fault
  | closed true f => some f
  | link t => t.listingFault?
  | _ => none

/-- Following the names of the place, through links also, leads from the first tree to the
second one. -/
inductive At : FileTree → List String → FileTree → Prop
  | here (t : FileTree) : At t [] t
  | entry {entries : List (String × FileTree)} {fault : Option Fault} {name : String}
      {t u : FileTree} {place : List String} (hmem : (name, t) ∈ entries) (h : At t place u) :
      At (listing entries fault) (name :: place) u
  | link {t u : FileTree} {name : String} {place : List String} (h : At t (name :: place) u) :
      At (link t) (name :: place) u

/-- No names lead to the tree itself, and nowhere else. -/
theorem at_iff {t u : FileTree} {place : List String} :
    At t place u ↔ place = [] ∧ u = t ∨ place ≠ [] ∧ At t place u := by
  constructor
  · intro h
    by_cases hplace : place = []
    · subst hplace
      cases h
      exact .inl ⟨rfl, rfl⟩
    · exact .inr ⟨hplace, h⟩
  · rintro (⟨rfl, rfl⟩ | ⟨-, h⟩)
    · exact .here _
    · exact h

/-- Every directory, those behind links included, can be listed to the end. -/
def Listable (t : FileTree) : Prop := ∀ place u, At t place u → u.listingFault? = none

/-- No link leads to a directory. -/
def Unlinked (t : FileTree) : Prop :=
  ∀ place u, At t place (.link u) → u.isDirectory = false

mutual

/-- The places below a directory with what is there; links are followed. -/
def reached : FileTree → List (List String × FileTree)
  | listing entries _ => reachedOfEntries entries
  | link t => t.reached
  | _ => []

/-- The places of entries and those below them. -/
def reachedOfEntries : List (String × FileTree) → List (List String × FileTree)
  | [] => []
  | (name, t) :: rest => under name (([], t) :: t.reached) ++ reachedOfEntries rest

end

mutual

/-- The places below a directory that stand behind a link. -/
def linked : FileTree → List (List String × FileTree)
  | listing entries _ => linkedOfEntries entries
  | link t => t.reached
  | _ => []

/-- The places that stand behind a link among or below entries. -/
def linkedOfEntries : List (String × FileTree) → List (List String × FileTree)
  | [] => []
  | (name, t) :: rest => under name t.linked ++ linkedOfEntries rest

end

theorem reached_target : ∀ t : FileTree, t.target.reached = t.reached
  | text _ | binary | closed _ _ | listing _ _ => rfl
  | link t => reached_target t

/-- Below what is no directory there is nothing. -/
theorem reached_eq_nil : ∀ {t : FileTree}, t.isDirectory = false → t.reached = []
  | text _, _ | binary, _ | closed _ _, _ => rfl
  | link t, h => reached_eq_nil (t := t) h

mutual

/-- **Names lead to the places of a walk and to those behind links.** -/
theorem cons_reached_perm : ∀ t : FileTree, (([], t) :: t.reached).Perm (t.places ++ t.linked)
  | text _ | binary | closed _ _ | link _ => .refl _
  | listing entries fault => by
    rw [reached, places, linked]
    exact (reachedOfEntries_perm entries).cons _

theorem reachedOfEntries_perm : ∀ entries : List (String × FileTree),
    (reachedOfEntries entries).Perm (placesOfEntries entries ++ linkedOfEntries entries)
  | [] => .refl _
  | (name, t) :: rest => by
    have hentry : (under name (([], t) :: t.reached)).Perm (under name t.places ++
        under name t.linked) := by
      rw [under, under, under, ← List.map_append]
      exact (cons_reached_perm t).map _
    rw [reachedOfEntries, placesOfEntries, linkedOfEntries]
    refine (hentry.append (reachedOfEntries_perm rest)).trans ?_
    rw [List.append_assoc, List.append_assoc]
    exact (List.perm_append_comm_assoc _ _ _).append_left _

end

mutual

/-- The places below a tree are those that names lead to. -/
theorem mem_reached_iff {u : FileTree} : ∀ {t : FileTree} {place : List String},
    (place, u) ∈ t.reached ↔ place ≠ [] ∧ At t place u
  | text _, place | binary, place | closed _ _, place => by
    constructor
    · intro h
      cases h
    · rintro ⟨hne, h⟩
      cases h
      exact absurd rfl hne
  | listing entries fault, place => by
    rw [reached, mem_reachedOfEntries_iff]
    constructor
    · rintro ⟨name, t, rest, hmem, rfl, h⟩
      exact ⟨List.cons_ne_nil _ _, .entry hmem h⟩
    · rintro ⟨hne, h⟩
      cases h with
      | here => exact absurd rfl hne
      | entry hmem h => exact ⟨_, _, _, hmem, rfl, h⟩
  | link t, place => by
    rw [reached, mem_reached_iff (t := t)]
    constructor
    · rintro ⟨hne, h⟩
      obtain ⟨name, rest, rfl⟩ := List.exists_cons_of_ne_nil hne
      exact ⟨hne, .link h⟩
    · rintro ⟨hne, h⟩
      cases h with
      | here => exact absurd rfl hne
      | link h => exact ⟨hne, h⟩

theorem mem_reachedOfEntries_iff {u : FileTree} :
    ∀ {entries : List (String × FileTree)} {place : List String},
      (place, u) ∈ reachedOfEntries entries ↔
        ∃ name t rest, (name, t) ∈ entries ∧ place = name :: rest ∧ At t rest u
  | [], place => by simp [reachedOfEntries]
  | (name, t) :: entries, place => by
    have hhead (rest : List String) : (rest, u) ∈ ([], t) :: t.reached ↔ At t rest u := by
      rw [List.mem_cons, Prod.mk.injEq, mem_reached_iff, ← at_iff]
    rw [reachedOfEntries, List.mem_append, mem_under, mem_reachedOfEntries_iff]
    constructor
    · rintro (⟨rest, rfl, hmem⟩ | ⟨name', t', rest, hmem, rfl, h⟩)
      · exact ⟨name, t, rest, List.mem_cons_self, rfl, (hhead rest).mp hmem⟩
      · exact ⟨name', t', rest, List.mem_cons_of_mem _ hmem, rfl, h⟩
    · rintro ⟨name', t', rest, hmem, rfl, h⟩
      rcases List.mem_cons.mp hmem with heq | hmem
      · obtain ⟨rfl, rfl⟩ := Prod.mk.inj heq
        exact .inl ⟨rest, rfl, (hhead rest).mpr h⟩
      · exact .inr ⟨name', t', rest, hmem, rfl, h⟩

end

theorem mem_cons_reached_iff {t u : FileTree} {place : List String} :
    (place, u) ∈ ([], t) :: t.reached ↔ At t place u := by
  rw [List.mem_cons, Prod.mk.injEq, mem_reached_iff, ← at_iff]

/-- A directory to which no link leads is found where it is. -/
theorem Unlinked.target_eq : ∀ {t : FileTree}, t.Unlinked → t.isDirectory = true → t.target = t
  | closed _ _, _, _ | listing _ _, _, _ => rfl
  | link t, h, ht => absurd ((h [] t (.here _)).symm.trans ht) Bool.false_ne_true

mutual

/-- Where no link leads to a directory, nothing stands behind links. -/
theorem Unlinked.linked_eq_nil : ∀ {t : FileTree}, t.Unlinked → t.linked = []
  | text _, _ | binary, _ | closed _ _, _ => rfl
  | listing entries fault, h => by
    rw [linked]
    exact linkedOfEntries_eq_nil fun name t hmem place u hu => h (name :: place) u (.entry hmem hu)
  | link t, h => reached_eq_nil (h [] t (.here _))

theorem linkedOfEntries_eq_nil : ∀ {entries : List (String × FileTree)},
    (∀ name t, (name, t) ∈ entries → t.Unlinked) → linkedOfEntries entries = []
  | [], _ => rfl
  | (name, t) :: rest, h => by
    rw [linkedOfEntries, Unlinked.linked_eq_nil (h name t List.mem_cons_self),
      linkedOfEntries_eq_nil fun name' t' hmem => h name' t' (List.mem_cons_of_mem _ hmem)]
    rfl

end

end SborSchema.FileTree
