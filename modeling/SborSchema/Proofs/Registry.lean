/-
# A registry keeps the first definition of each name and version

Definitions are offered to a registry one after the other, and one that is
refused leaves it as it is. What the registry is after that is said by a map:
under a name and a version stands the first definition of them that was
offered (`Definition.firstOf`). Every offer keeps the table of definitions and
the table of versions in step (`Registry.Consistent`), and whatever is asked of
the registry is answered from the map (`Registry.Represents`).

Key definitions: `Registry.ofOffers`, `Definition.firstOf`, `Registry.Consistent`,
`Registry.Represents`.
Key theorems: `Registry.find?_ofOffers`, `Registry.Consistent.insert`,
`Registry.consistent_ofOffers`, `Registry.Consistent.represents`,
`Registry.ofOffers_represents_firstOf`.
-/
import Mathlib.Data.Finset.Card
import Mathlib.Data.String.Basic
import SborSchema.Proofs.Lists
import SborSchema.Registry

namespace SborSchema

/-- The first definition of a name and version in a list. -/
def Definition.firstOf (ds : List Definition) (name : String) (version : Nat) :
    Option Definition :=
  ds.find? fun d => decide (d.key = (name, version))

namespace Registry

/-- The registry after a definition was offered: a refused one changes nothing. -/
def offer (r : Registry) (d : Definition) : Registry :=
  match r.add d with
  | .ok r => r
  | .error _ => r

/-- The registry after a sequence of definitions was offered. -/
def ofOffers (ds : List Definition) : Registry := ds.foldl offer empty

variable {r r' : Registry} {d : Definition} {name : String} {version : Nat}

/-! ### One definition -/

/-- An add is refused if there is a definition of the name and version, and names them. -/
theorem add_eq_error {e : Duplicate} :
    r.add d = .error e ↔ (r.find? d.name d.version).isSome ∧ e = ⟨d.name, d.version⟩ := by
  rw [add]
  cases r.find? d.name d.version with
  | none => simp
  | some _ => simp [eq_comm]

/-- Another add stores the definition. -/
theorem add_eq_ok : r.add d = .ok r' ↔ r.find? d.name d.version = none ∧ r' = r.insert d := by
  rw [add]
  cases r.find? d.name d.version with
  | none => simp [eq_comm]
  | some _ => simp

/-- A definition is found under its name and version. -/
theorem find?_insert (r : Registry) (d : Definition) (name : String) (version : Nat) :
    (r.insert d).find? name version =
      if (name, version) = d.key then some d else r.find? name version :=
  r.stored.get?_alter d.key (name, version) fun _ => d

theorem firstOf_singleton (d : Definition) (name : String) (version : Nat) :
    Definition.firstOf [d] name version = if (name, version) = d.key then some d else none := by
  by_cases hkey : d.key = (name, version)
  · simp [Definition.firstOf, hkey]
  · simp [Definition.firstOf, hkey, Ne.symm hkey]

/-- An offer puts the definition under its name and version unless there is one. -/
theorem find?_offer (r : Registry) (d : Definition) (name : String) (version : Nat) :
    (r.offer d).find? name version =
      (r.find? name version).or (Definition.firstOf [d] name version) := by
  rw [offer, firstOf_singleton]
  cases h : r.add d with
  | ok r' =>
    obtain ⟨hnew, rfl⟩ := add_eq_ok.mp h
    change (r.insert d).find? name version = _
    rw [find?_insert]
    by_cases hkey : (name, version) = d.key
    · obtain ⟨rfl, rfl⟩ := Prod.mk.inj hkey
      rw [if_pos hkey, if_pos hkey, hnew, Option.none_or]
    · rw [if_neg hkey, if_neg hkey, Option.or_none]
  | error e =>
    change r.find? name version = _
    by_cases hkey : (name, version) = d.key
    · obtain ⟨rfl, rfl⟩ := Prod.mk.inj hkey
      obtain ⟨found, hfound⟩ := Option.isSome_iff_exists.mp (add_eq_error.mp h).1
      rw [hfound, Option.some_or]
    · rw [if_neg hkey, Option.or_none]

/-- Offers put under a name and version the first definition of them, unless there is one. -/
theorem find?_foldl_offer (ds : List Definition) : ∀ r : Registry,
    (ds.foldl offer r).find? name version =
      (r.find? name version).or (Definition.firstOf ds name version) := by
  induction ds with
  | nil => simp [Definition.firstOf]
  | cons d ds ih =>
    intro r
    have hcons : Definition.firstOf (d :: ds) name version =
        (Definition.firstOf [d] name version).or (Definition.firstOf ds name version) := by
      rw [← List.singleton_append]
      exact List.find?_append
    rw [List.foldl_cons, ih, find?_offer, Option.or_assoc, hcons]

/-- **Under a name and version stands the first definition of them that was offered.** -/
theorem find?_ofOffers (ds : List Definition) (name : String) (version : Nat) :
    (ofOffers ds).find? name version = Definition.firstOf ds name version := by
  rw [ofOffers, find?_foldl_offer]
  rfl

/-! ### The two tables -/

theorem mem_insertVersion {v w : Nat} {vs : List Nat} :
    w ∈ insertVersion v vs ↔ w = v ∨ w ∈ vs := by
  rw [insertVersion]
  by_cases hv : v ∈ vs
  · rw [if_pos (List.contains_iff_mem.mpr hv)]
    exact ⟨.inr, fun h => h.elim (· ▸ hv) id⟩
  · rw [if_neg (mt List.contains_iff_mem.mp hv), List.mem_mergeSort, List.mem_append,
      List.mem_singleton]
    exact Or.comm

/-- A new version goes to its place. -/
theorem ascending_insertVersion {v : Nat} {vs : List Nat} (h : vs.Pairwise (· < ·)) :
    (insertVersion v vs).Pairwise (· < ·) := by
  rw [insertVersion]
  by_cases hv : v ∈ vs
  · rw [if_pos (List.contains_iff_mem.mpr hv)]
    exact h
  · have hnodup : (vs ++ [v]).Nodup := by
      rw [List.nodup_append]
      refine ⟨h.imp ne_of_lt, List.nodup_singleton v, fun w hw u hu => ?_⟩
      rw [List.mem_singleton.mp hu]
      exact ne_of_mem_of_not_mem hw hv
    rw [if_neg (mt List.contains_iff_mem.mp hv)]
    exact ((vs ++ [v]).sortedLE_mergeSort.sortedLT_of_nodup
      (List.nodup_mergeSort.mpr hnodup)).pairwise

/-- The tables are in step: a definition stands under its own name and version, the versions
of each name ascend, and both the names and the versions in the second table are those that
definitions stand under in the first. -/
structure Consistent (r : Registry) : Prop where
  key {name : String} {version : Nat} {d : Definition} (h : r.find? name version = some d) :
    d.name = name ∧ d.version = version
  versions_ascending (name : String) : (r.versionsOf name).Pairwise (· < ·)
  mem_versionsOf (name : String) (version : Nat) :
    version ∈ r.versionsOf name ↔ (r.find? name version).isSome
  mem_keys (name : String) : name ∈ r.versions.keys ↔ ∃ version, (r.find? name version).isSome

theorem consistent_empty : empty.Consistent where
  key h := by cases h
  versions_ascending _ := List.Pairwise.nil
  mem_versionsOf _ _ := by simp [versionsOf, find?, empty, Table.get?_empty]
  mem_keys _ := by simp [Table.mem_keys_iff, find?, empty, Table.get?_empty]

/-- The version of a definition goes to the versions of its name. -/
theorem versionsOf_insert (r : Registry) (d : Definition) (name : String) :
    (r.insert d).versionsOf name =
      if name = d.name then insertVersion d.version (r.versionsOf name) else r.versionsOf name := by
  simp only [versionsOf, insert, Table.get?_alter]
  by_cases hname : name = d.name
  · rw [if_pos hname, if_pos hname, Option.getD_some, hname]
  · rw [if_neg hname, if_neg hname]

theorem mem_keys_insert (r : Registry) (d : Definition) (name : String) :
    name ∈ (r.insert d).versions.keys ↔ name = d.name ∨ name ∈ r.versions.keys := by
  simp only [Table.mem_keys_iff, insert, Table.get?_alter]
  by_cases hname : name = d.name <;> simp [hname]

theorem find?_insert_isSome (r : Registry) (d : Definition) (name : String) (version : Nat) :
    ((r.insert d).find? name version).isSome ↔
      (name = d.name ∧ version = d.version) ∨ (r.find? name version).isSome := by
  simp only [find?_insert, Definition.key, Prod.mk.injEq]
  by_cases hkey : name = d.name ∧ version = d.version <;> simp [hkey]

/-- **Storing a definition keeps the tables in step.** -/
theorem Consistent.insert (hr : r.Consistent) (d : Definition) : (r.insert d).Consistent := by
  refine ⟨fun {name version d'} h => ?_, fun name => ?_, fun name version => ?_, fun name => ?_⟩
  · rw [find?_insert] at h
    by_cases hkey : (name, version) = d.key
    · rw [if_pos hkey] at h
      obtain rfl : d = d' := Option.some.inj h
      exact Prod.mk.inj hkey.symm
    · rw [if_neg hkey] at h
      exact hr.key h
  · rw [versionsOf_insert]
    by_cases hname : name = d.name
    · rw [if_pos hname]
      exact ascending_insertVersion (hr.versions_ascending name)
    · rw [if_neg hname]
      exact hr.versions_ascending name
  · rw [versionsOf_insert, find?_insert_isSome, ← hr.mem_versionsOf]
    by_cases hname : name = d.name
    · rw [if_pos hname, mem_insertVersion]
      simp [hname]
    · rw [if_neg hname]
      simp [hname]
  · simp only [mem_keys_insert, find?_insert_isSome, hr.mem_keys, exists_or, exists_and_left,
      exists_eq, and_true]

theorem Consistent.offer (hr : r.Consistent) (d : Definition) : (r.offer d).Consistent := by
  rw [Registry.offer]
  cases h : r.add d with
  | ok r' =>
    obtain ⟨-, rfl⟩ := add_eq_ok.mp h
    exact hr.insert d
  | error _ => exact hr

theorem Consistent.foldl_offer (ds : List Definition) : ∀ {r : Registry}, r.Consistent →
    (ds.foldl Registry.offer r).Consistent := by
  induction ds with
  | nil => exact fun hr => hr
  | cons d ds ih => exact fun hr => ih (hr.offer d)

/-- **The tables are in step after every sequence of offers.** -/
theorem consistent_ofOffers (ds : List Definition) : (ofOffers ds).Consistent :=
  consistent_empty.foldl_offer ds

/-! ### What is asked of a registry -/

/-- The definition stands in the map under a name as the one of the highest version that
is not deprecated. -/
structure IsLatest (m : String → Nat → Option Definition) (name : String) (d : Definition) :
    Prop where
  there : m name d.version = some d
  current : d.deprecated = false
  highest (v : Nat) (d' : Definition) (h : m name v = some d') (hd : d'.deprecated = false) :
    v ≤ d.version

/-- The registry is the map: what is stored and what is answered to every question. -/
structure Represents (r : Registry) (m : String → Nat → Option Definition) : Prop where
  /-- A definition has the name and the version that it stands under. -/
  key {name : String} {version : Nat} {d : Definition} (h : m name version = some d) :
    d.name = name ∧ d.version = version
  stored (name : String) (version : Nat) : r.stored.get? (name, version) = m name version
  versions_ascending (name : String) : (r.versionsOf name).Pairwise (· < ·)
  mem_versionsOf (name : String) (version : Nat) :
    version ∈ r.versionsOf name ↔ (m name version).isSome
  /-- The size is the number of keys. -/
  size : ∃ keys : Finset (String × Nat),
    (∀ name version, (name, version) ∈ keys ↔ (m name version).isSome) ∧ r.size = keys.card
  get?_version (name : String) (version : Nat) : r.get? name (some version) = m name version
  get?_latest (name : String) (d : Definition) : r.get? name none = some d ↔ IsLatest m name d
  get?_eq_none (name : String) : r.get? name none = none ↔
    ∀ version d, m name version = some d → d.deprecated = true
  history_ascending (name : String) : ((r.history name).map (·.version)).Pairwise (· < ·)
  mem_history (name : String) (d : Definition) : d ∈ r.history name ↔ m name d.version = some d
  names_ascending : r.names.Pairwise (· < ·)
  mem_names (name : String) : name ∈ r.names ↔ ∃ version, (m name version).isSome
  latest : r.latest = r.names.filterMap fun name => r.get? name none

/-- The names ascend, in whatever order they came. -/
theorem names_ascending (r : Registry) : r.names.Pairwise (· < ·) :=
  (r.versions.keys.sortedLE_mergeSort.sortedLT_of_nodup
    (List.nodup_mergeSort.mpr r.versions.keys_nodup)).pairwise

namespace Consistent

variable (hr : r.Consistent)
include hr

theorem latestVersion?_eq_some :
    r.latestVersion? name = some version ↔ ∃ d, r.find? name version = some d ∧
      d.deprecated = false ∧ ∀ v d', r.find? name v = some d' → d'.deprecated = false →
        v ≤ version := by
  have hdescending : (r.versionsOf name).reverse.Pairwise (· > ·) :=
    List.pairwise_reverse.mpr (hr.versions_ascending name)
  rw [latestVersion?, find?_eq_some_of_descending hdescending]
  simp only [List.mem_reverse, hr.mem_versionsOf, Option.any_eq_true, Bool.not_eq_eq_eq_not,
    Bool.not_true, Option.isSome_iff_exists]
  constructor
  · rintro ⟨-, ⟨d, hd, hcurrent⟩, hmax⟩
    exact ⟨d, hd, hcurrent, fun v d' hv hd' => hmax v ⟨d', hv⟩ ⟨d', hv, hd'⟩⟩
  · rintro ⟨d, hd, hcurrent, hmax⟩
    exact ⟨⟨d, hd⟩, ⟨d, hd, hcurrent⟩, fun v _ ⟨d', hv, hd'⟩ => hmax v d' hv hd'⟩

theorem get?_latest_iff : r.get? name none = some d ↔ IsLatest r.find? name d := by
  simp only [get?, Option.bind_eq_some_iff, hr.latestVersion?_eq_some]
  constructor
  · rintro ⟨version, ⟨d', hd', hcurrent, hmax⟩, hd⟩
    obtain rfl : d' = d := Option.some.inj (hd'.symm.trans hd)
    obtain ⟨-, rfl⟩ := hr.key hd
    exact ⟨hd, hcurrent, hmax⟩
  · rintro ⟨hd, hcurrent, hmax⟩
    exact ⟨d.version, ⟨d, hd, hcurrent, hmax⟩, hd⟩

/-- There is no latest definition only if all definitions of the name are deprecated. -/
theorem get?_eq_none_iff : r.get? name none = none ↔
    ∀ version d, r.find? name version = some d → d.deprecated = true := by
  constructor
  · intro hnone version d hd
    have hlatest : r.latestVersion? name = none := by
      cases hv : r.latestVersion? name with
      | none => rfl
      | some v =>
        obtain ⟨d', hd', -, -⟩ := hr.latestVersion?_eq_some.mp hv
        simp only [get?, hv, Option.bind_some, hd', reduceCtorEq] at hnone
    have hall := List.find?_eq_none.mp hlatest version
      (List.mem_reverse.mpr ((hr.mem_versionsOf name version).mpr (by rw [hd]; rfl)))
    simpa [hd] using hall
  · intro hall
    rw [Option.eq_none_iff_forall_ne_some]
    intro d hd
    have hlatest := hr.get?_latest_iff.mp hd
    exact Bool.false_ne_true (hlatest.current.symm.trans (hall _ _ hlatest.there))

/-- The history of a name has its versions in their order. -/
theorem map_version_history : (r.history name).map (·.version) = r.versionsOf name := by
  have hall : ∀ vs : List Nat, (∀ v ∈ vs, (r.find? name v).isSome) →
      (vs.filterMap (r.find? name)).map (·.version) = vs := by
    intro vs
    induction vs with
    | nil => simp
    | cons v vs ih =>
      intro hvs
      obtain ⟨hv, hvs⟩ := List.forall_mem_cons.mp hvs
      obtain ⟨d, hd⟩ := Option.isSome_iff_exists.mp hv
      rw [List.filterMap_cons_some hd, List.map_cons, ih hvs, (hr.key hd).2]
  exact hall _ fun v hv => (hr.mem_versionsOf name v).mp hv

theorem mem_history_iff : d ∈ r.history name ↔ r.find? name d.version = some d := by
  rw [history, List.mem_filterMap]
  constructor
  · rintro ⟨v, -, hv⟩
    obtain ⟨-, rfl⟩ := hr.key hv
    exact hv
  · intro hd
    exact ⟨d.version, (hr.mem_versionsOf _ _).mpr (by rw [hd]; rfl), hd⟩

/-- Sorted by name, the latest definitions are those of the sorted names. -/
theorem latest_eq : r.latest = r.names.filterMap fun name => r.get? name none :=
  mergeSort_filterMap (fun _ _ hd => (hr.key (hr.get?_latest_iff.mp hd).there).1) _

/-- **Tables in step are the map of what is found in them.** -/
theorem represents : r.Represents r.find? where
  key := hr.key
  stored _ _ := rfl
  versions_ascending := hr.versions_ascending
  mem_versionsOf := hr.mem_versionsOf
  size := by
    refine ⟨⟨Multiset.ofList r.stored.keys, r.stored.keys_nodup⟩, fun name version => ?_, ?_⟩
    · exact r.stored.mem_keys_iff (name, version)
    · exact (List.length_map Prod.fst).symm
  get?_version _ _ := rfl
  get?_latest _ _ := hr.get?_latest_iff
  get?_eq_none _ := hr.get?_eq_none_iff
  history_ascending name := by
    rw [hr.map_version_history]
    exact hr.versions_ascending name
  mem_history _ _ := hr.mem_history_iff
  names_ascending := names_ascending r
  mem_names name := List.mem_mergeSort.trans (hr.mem_keys name)
  latest := hr.latest_eq

end Consistent

/-- The tables of a registry that is a map are in step. -/
theorem Represents.consistent {m : String → Nat → Option Definition} (h : r.Represents m) :
    r.Consistent := by
  have hfind : r.find? = m := by
    funext name version
    exact h.stored name version
  subst hfind
  exact ⟨h.key, h.versions_ascending, h.mem_versionsOf,
    fun name => List.mem_mergeSort.symm.trans (h.mem_names name)⟩

/-- **A registry is the map of the first definitions that were offered to it.** An add is
refused just when there is a definition of its name and version, and then changes nothing;
what is stored stays as it is whatever is offered later; and every question is answered
from the map. -/
theorem ofOffers_represents_firstOf (ds : List Definition) :
    (ofOffers ds).Represents (Definition.firstOf ds) ∧
    (∀ d, match (ofOffers ds).add d with
      | .ok r => Definition.firstOf ds d.name d.version = none ∧ ofOffers (ds ++ [d]) = r
      | .error e => (Definition.firstOf ds d.name d.version).isSome ∧
          e = ⟨d.name, d.version⟩ ∧ ofOffers (ds ++ [d]) = ofOffers ds) ∧
    ∀ (later : List Definition) (name : String) (version : Nat) (d : Definition),
      (ofOffers ds).find? name version = some d →
      (ofOffers (ds ++ later)).find? name version = some d := by
  have hfind : (ofOffers ds).find? = Definition.firstOf ds := by
    funext name version
    exact find?_ofOffers ds name version
  refine ⟨hfind ▸ (consistent_ofOffers ds).represents, fun d => ?_, ?_⟩
  · have hoffer : ofOffers (ds ++ [d]) = (ofOffers ds).offer d := by
      simp only [ofOffers, List.foldl_append, List.foldl_cons, List.foldl_nil]
    rw [hoffer, Registry.offer, ← hfind]
    cases h : (ofOffers ds).add d with
    | ok r => exact ⟨(add_eq_ok.mp h).1, rfl⟩
    | error e =>
      obtain ⟨hthere, he⟩ := add_eq_error.mp h
      exact ⟨hthere, he, rfl⟩
  · intro later name version d hd
    have happend : ofOffers (ds ++ later) = later.foldl Registry.offer (ofOffers ds) := by
      rw [ofOffers, List.foldl_append, ofOffers]
    rw [happend, find?_foldl_offer, hd, Option.some_or]

end Registry
end SborSchema
