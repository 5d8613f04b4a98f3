/-
# Lists side by side

Two lists correspond when they have the same length and members at the same
position are related. Further facts are about the order of one list, and about
where a list that was put together is taken apart again.

Key theorems: `forall_mem_of_forall₂`, `exists_forall₂`, `forall₂_of_common`,
`forall₂_of_map_eq`, `forall₂_named_iff`, `find?_of_perm`, `find?_eq_some_of_descending`,
`ascending_mergeSort`, `mergeSort_filterMap`, `flatMap_eq_filterMap_head?`,
`takeWhile_append_exact`, `dropWhile_append_exact`.
-/
import Mathlib.Data.List.Find
import Mathlib.Data.List.Forall2
import Mathlib.Data.List.Nodup
import Mathlib.Data.List.Sort

namespace SborSchema

variable {α β : Type*} {R : α → β → Prop}

/-- What the related members have holds throughout the first list. -/
theorem forall_mem_of_forall₂ {P : α → Prop} (hP : ∀ a b, R a b → P a) {l : List α} {l' : List β}
    (h : List.Forall₂ R l l') : ∀ a ∈ l, P a := by
  induction h with
  | nil => simp
  | cons head _ ih => exact List.forall_mem_cons.mpr ⟨hP _ _ head, ih⟩

/-- What the members of the first list pass on to what they are related to holds throughout
the second list. -/
theorem forall_mem_of_forall₂_right {P : β → Prop} {l : List α} {l' : List β}
    (h : List.Forall₂ R l l') (hP : ∀ a ∈ l, ∀ b, R a b → P b) : ∀ b ∈ l', P b := by
  induction h with
  | nil => simp
  | cons head _ ih =>
    obtain ⟨hhead, htail⟩ := List.forall_mem_cons.mp hP
    exact List.forall_mem_cons.mpr ⟨hhead _ head, ih htail⟩

/-- If each member is related to something, the list corresponds to another one. -/
theorem exists_forall₂ {l : List α} (h : ∀ a ∈ l, ∃ b, R a b) : ∃ l', List.Forall₂ R l l' := by
  induction l with
  | nil => exact ⟨[], .nil⟩
  | cons a l ih =>
    obtain ⟨⟨b, hb⟩, hl⟩ := List.forall_mem_cons.mp h
    obtain ⟨l', hl'⟩ := ih hl
    exact ⟨b :: l', .cons hb hl'⟩

/-- Related members may be related otherwise, member by member of the first list. -/
theorem forall₂_imp_of_mem {S : α → β → Prop} {l : List α} {l' : List β}
    (hRS : ∀ a ∈ l, ∀ b, R a b → S a b) (h : List.Forall₂ R l l') : List.Forall₂ S l l' :=
  ((List.forall₂_and_left l l').mpr ⟨hRS, h⟩).imp fun _ b hab => hab.1 b hab.2

/-- What each pair of corresponding members is related through can be put beside the
members of the second list. -/
theorem exists_forall₂_pair {γ : Type*} {S : α → γ → β → Prop} {l : List α} {l' : List β}
    (h : List.Forall₂ (fun a b => ∃ c, S a c b) l l') :
    ∃ xs : List (γ × β), xs.map (·.2) = l' ∧ List.Forall₂ (fun a x => S a x.1 x.2) l xs := by
  induction h with
  | nil => exact ⟨[], rfl, .nil⟩
  | @cons a b _ _ head _ ih =>
    obtain ⟨c, hc⟩ := head
    obtain ⟨xs, hxs, htail⟩ := ih
    exact ⟨(c, b) :: xs, by rw [List.map_cons, hxs], .cons hc htail⟩

/-- Two lists that correspond to one list correspond to each other. -/
theorem forall₂_of_common {γ : Type*} {S : α → γ → Prop} {T : β → γ → Prop} {l : List α}
    {l' : List β} {l'' : List γ} (hT : ∀ a ∈ l, ∀ b c, R a b → S a c → T b c)
    (h : List.Forall₂ R l l') (h' : List.Forall₂ S l l'') : List.Forall₂ T l' l'' := by
  induction h generalizing l'' with
  | nil =>
    cases h'
    exact .nil
  | cons head _ ih =>
    obtain ⟨hhead, hrest⟩ := List.forall_mem_cons.mp hT
    cases h' with
    | cons head' tail' => exact .cons (hhead _ _ head head') (ih hrest tail')

/-- Two lists with the same images correspond if members at the same place with the same
image are related. -/
theorem forall₂_of_map_eq {γ : Type*} {f : α → γ} {f' : β → γ} {l : List α} {l' : List β}
    (hmap : l.map f = l'.map f') (hR : ∀ a b, (a, b) ∈ l.zip l' → f a = f' b → R a b) :
    List.Forall₂ R l l' := by
  have himage : List.Forall₂ (fun a b => f a = f' b) l l' := by
    rw [← List.forall₂_eq_eq_eq] at hmap
    exact List.forall₂_map_right_iff.mp (List.forall₂_map_left_iff.mp hmap)
  exact List.forall₂_iff_zip.mpr
    ⟨himage.length_eq, fun hab => hR _ _ hab (List.forall₂_zip himage hab)⟩

/-- Two lists of named members correspond if their names are the same and what the names
stand for corresponds. -/
theorem forall₂_named_iff {γ : Type*} {l : List (γ × α)} {l' : List (γ × β)} :
    List.Forall₂ (fun a b => b.1 = a.1 ∧ R a.2 b.2) l l' ↔
      l'.map (·.1) = l.map (·.1) ∧ List.Forall₂ R (l.map (·.2)) (l'.map (·.2)) := by
  constructor
  · intro h
    induction h with
    | nil => exact ⟨rfl, .nil⟩
    | cons head _ ih =>
      exact ⟨by rw [List.map_cons, head.1, ih.1, List.map_cons], .cons head.2 ih.2⟩
  · rintro ⟨hnames, h⟩
    induction l generalizing l' with
    | nil => simpa using hnames
    | cons a l ih =>
      cases l' with
      | nil => simp at hnames
      | cons b l' =>
        simp only [List.map_cons, List.cons.injEq] at hnames
        cases h with
        | cons head tail => exact .cons ⟨hnames.1, head⟩ (ih hnames.2 tail)

/-- Under distinct names, a member is the first one of its name. -/
theorem find?_of_mem {l : List (String × α)} {name : String} {a : α}
    (hnodup : (l.map (·.1)).Nodup) (ha : (name, a) ∈ l) :
    l.find? (·.1 == name) = some (name, a) := by
  induction l with
  | nil => cases ha
  | cons b l ih =>
    rw [List.map_cons, List.nodup_cons] at hnodup
    rcases List.mem_cons.mp ha with rfl | ha
    · exact List.find?_cons_of_pos (by simp)
    · have hne : b.1 ≠ name := fun h => hnodup.1 (h ▸ List.mem_map_of_mem ha)
      rw [List.find?_cons_of_neg (by simpa using hne), ih hnodup.2 ha]

/-- Under distinct names, the order of the members does not matter to the first one of a
name. -/
theorem find?_of_perm {l l' : List (String × α)} (hnodup : (l.map (·.1)).Nodup) (h : l.Perm l')
    (name : String) : l.find? (·.1 == name) = l'.find? (·.1 == name) := by
  apply List.find?_eq_find?_of_perm h
  rintro a ⟨ha, hna⟩ b ⟨hb, hnb⟩
  have hab : a.1 = b.1 := (beq_iff_eq.mp hna).trans (beq_iff_eq.mp hnb).symm
  exact List.inj_on_of_nodup_map hnodup ha hb hab

/-- The first members of a name in corresponding lists correspond. -/
theorem find?_named {R : α → β → Prop} {l : List (String × α)} {l' : List (String × β)}
    (h : List.Forall₂ (fun a b => b.1 = a.1 ∧ R a.2 b.2) l l') (name : String) :
    Option.Rel R ((l.find? (·.1 == name)).map (·.2)) ((l'.find? (·.1 == name)).map (·.2)) := by
  induction h with
  | nil => exact .none
  | @cons a b _ _ head _ ih =>
    rw [List.find?_cons, List.find?_cons, head.1]
    cases a.1 == name with
    | true => exact .some head.2
    | false => exact ih

/-- In a descending list, the first number that meets a condition is the greatest. -/
theorem find?_eq_some_of_descending {p : Nat → Bool} {v : Nat} {vs : List Nat}
    (h : vs.Pairwise (· > ·)) :
    vs.find? p = some v ↔ v ∈ vs ∧ p v = true ∧ ∀ w ∈ vs, p w = true → w ≤ v := by
  induction vs with
  | nil => simp
  | cons u us ih =>
    obtain ⟨hhead, htail⟩ := List.pairwise_cons.mp h
    by_cases hu : p u = true
    · rw [List.find?_cons_of_pos hu, Option.some.injEq]
      constructor
      · rintro rfl
        refine ⟨List.mem_cons_self, hu, List.forall_mem_cons.mpr ⟨fun _ => Nat.le_refl u, ?_⟩⟩
        exact fun w hw _ => Nat.le_of_lt (hhead w hw)
      · rintro ⟨hv, -, hmax⟩
        rcases List.mem_cons.mp hv with rfl | hv
        · rfl
        · have hlt : v < u := hhead v hv
          have hle : u ≤ v := hmax u List.mem_cons_self hu
          omega
    · rw [List.find?_cons_of_neg hu, ih htail, List.mem_cons, List.forall_mem_cons]
      constructor
      · rintro ⟨hv, hp, hmax⟩
        exact ⟨.inr hv, hp, fun h => absurd h hu, hmax⟩
      · rintro ⟨rfl | hv, hp, -, hmax⟩
        · exact absurd hp hu
        · exact ⟨hv, hp, hmax⟩

/-- Sorted by distinct keys, a list is ascending. -/
theorem ascending_mergeSort {κ : Type*} [LinearOrder κ] {key : α → κ} {l : List α}
    (hnodup : (l.map key).Nodup) :
    (l.mergeSort fun a b => decide (key a ≤ key b)).Pairwise fun a b => key a < key b := by
  have hle := List.pairwise_mergeSort' (Order.Preimage key (· ≤ ·)) l
  have hne := ((List.mergeSort_perm l fun a b => decide (key a ≤ key b)).map key).nodup_iff.mpr
    hnodup
  exact (List.pairwise_map.mp hne).imp₂ (fun _ _ hne hle => lt_of_le_of_ne hle hne) hle

/-- Sorting by its key what is kept of each key is keeping it of the sorted keys. -/
theorem mergeSort_filterMap {κ : Type*} [LinearOrder κ] {f : κ → Option α} {key : α → κ}
    (hkey : ∀ k a, f k = some a → key a = k) (ks : List κ) :
    ((ks.filterMap f).mergeSort fun a b => decide (key a ≤ key b)) =
      (ks.mergeSort fun k l => decide (k ≤ l)).filterMap f := by
  have hleft := List.pairwise_mergeSort' (Order.Preimage key (· ≤ ·)) (ks.filterMap f)
  have hright : ((ks.mergeSort fun k l => decide (k ≤ l)).filterMap f).Pairwise
      (Order.Preimage key (· ≤ ·)) := by
    refine List.pairwise_filterMap.mpr (ks.sortedLE_mergeSort.pairwise.imp ?_)
    intro k l hkl a ha b hb
    have hle : key a ≤ key b := by rwa [hkey k a ha, hkey l b hb]
    exact hle
  have hperm := (List.mergeSort_perm (ks.filterMap f) fun a b => decide (key a ≤ key b)).trans
    ((List.mergeSort_perm ks fun k l => decide (k ≤ l)).filterMap f).symm
  -- What has the same key is the same, so the order of the keys leaves no choice.
  refine hperm.eq_of_pairwise (fun a b ha hb hab hba => ?_) hleft hright
  obtain ⟨k, -, hk⟩ := List.mem_filterMap.mp (List.mem_mergeSort.mp ha)
  obtain ⟨l, -, hl⟩ := List.mem_filterMap.mp hb
  have hkl : k = l := by
    rw [← hkey k a hk, ← hkey l b hl]
    exact le_antisymm hab hba
  exact Option.some.inj (hk.symm.trans (hkl ▸ hl))

/-! ### Lists of lists -/

variable {f : α → List β} {l : List α}

/-- If no member gives more than one, what all give is what each gives first. -/
theorem flatMap_eq_filterMap_head? (h : ∀ a ∈ l, (f a).length ≤ 1) :
    l.flatMap f = l.filterMap fun a => (f a).head? := by
  induction l with
  | nil => rfl
  | cons a l ih =>
    obtain ⟨ha, hl⟩ := List.forall_mem_cons.mp h
    rw [List.flatMap_cons, List.filterMap_cons, ih hl]
    match hfa : f a, ha with
    | [], _ => rfl
    | [b], _ => rfl

theorem length_filterMap_head?_le (f : α → List β) (l : List α) :
    (l.filterMap fun a => (f a).head?).length ≤ (l.flatMap f).length := by
  induction l with
  | nil => exact Nat.le_refl 0
  | cons a l ih =>
    rw [List.flatMap_cons, List.filterMap_cons, List.length_append]
    cases f a with
    | nil => simpa using ih
    | cons b bs =>
      simp only [List.head?_cons, List.length_cons]
      omega

/-- If all members together give as many as the members that give something, no member gives
more than one. -/
theorem length_le_one_of_flatMap
    (h : (l.flatMap f).length = (l.filterMap fun a => (f a).head?).length) :
    ∀ a ∈ l, (f a).length ≤ 1 := by
  induction l with
  | nil => simp
  | cons a l ih =>
    have hrest := length_filterMap_head?_le f l
    rw [List.flatMap_cons, List.filterMap_cons, List.length_append] at h
    cases hfa : f a with
    | nil =>
      rw [hfa] at h
      refine List.forall_mem_cons.mpr ⟨by simp [hfa], ih ?_⟩
      simpa using h
    | cons b bs =>
      simp only [hfa, List.head?_cons, List.length_cons] at h
      refine List.forall_mem_cons.mpr ⟨?_, ih (by omega)⟩
      rw [hfa, List.length_cons]
      omega

/-! ### Taking apart -/

variable {p : α → Bool} {front rest : List α}

/-- What meets a condition is taken from the front up to where the condition first fails. -/
theorem takeWhile_append_exact (hfront : ∀ a ∈ front, p a = true)
    (hrest : ∀ a ∈ rest.head?, p a = false) : (front ++ rest).takeWhile p = front := by
  rw [List.takeWhile_append_of_pos hfront]
  cases rest with
  | nil => exact List.append_nil front
  | cons a rest => simp [hrest a rfl]

/-- What is left then is everything from where the condition first fails. -/
theorem dropWhile_append_exact (hfront : ∀ a ∈ front, p a = true)
    (hrest : ∀ a ∈ rest.head?, p a = false) : (front ++ rest).dropWhile p = rest := by
  rw [List.dropWhile_append_of_pos hfront]
  cases rest with
  | nil => rfl
  | cons a rest => simp [hrest a rfl]

end SborSchema
