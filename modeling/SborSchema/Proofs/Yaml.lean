/-
# Values in documents

No two keys of a mapping are the same. A value that is read once more, as the
type in a definition is, keeps this: where dropping the mark of a tag would make
two keys the same, reading fails. Without tags, keys that are text differ as
texts. What stands under a key of a mapping is smaller than the mapping.

Key definitions: `Yaml.Untagged`, `Yaml.KeysDistinct`, `Yaml.named`.
Key theorems: `Yaml.keysDistinct_of_reread`, `Yaml.KeysDistinct.named`,
`Yaml.nodup_of_keysDistinct`.
-/
import SborSchema.Proofs.Lists
import SborSchema.Proofs.Outcome
import SborSchema.Yaml

namespace SborSchema.Yaml

/-- No tag occurs in the value. -/
inductive Untagged : Yaml → Prop
  | null : Untagged null
  | bool (b : Bool) : Untagged (bool b)
  | number (n : Number) : Untagged (number n)
  | string (s : String) : Untagged (string s)
  | sequence {items : List Yaml} (hitems : ∀ y ∈ items, Untagged y) : Untagged (sequence items)
  | mapping {entries : List (Yaml × Yaml)} (hkeys : ∀ e ∈ entries, Untagged e.1)
      (hvalues : ∀ e ∈ entries, Untagged e.2) : Untagged (mapping entries)

/-- No two keys of a mapping in the value are the same. -/
inductive KeysDistinct : Yaml → Prop
  | null : KeysDistinct null
  | bool (b : Bool) : KeysDistinct (bool b)
  | number (n : Number) : KeysDistinct (number n)
  | string (s : String) : KeysDistinct (string s)
  | sequence {items : List Yaml} (hitems : ∀ y ∈ items, KeysDistinct y) :
      KeysDistinct (sequence items)
  | mapping {entries : List (Yaml × Yaml)}
      (hdistinct : entries.Pairwise fun e e' => same e.1 e'.1 = false)
      (hkeys : ∀ e ∈ entries, KeysDistinct e.1) (hvalues : ∀ e ∈ entries, KeysDistinct e.2) :
      KeysDistinct (mapping entries)
  | tagged (tag : String) {content : Yaml} (hcontent : KeysDistinct content) :
      KeysDistinct (tagged tag content)

/-! ### Values read once more -/

theorem keysDistinct_empty : (mapping []).KeysDistinct :=
  .mapping .nil (fun _ he => nomatch he) fun _ he => nomatch he

/-- An entry whose key is not there yet may be put behind the others. -/
theorem KeysDistinct.snoc {entries : List (Yaml × Yaml)} {key value : Yaml}
    (h : (Yaml.mapping entries).KeysDistinct) (hnew : hasKey key entries = false)
    (hkey : key.KeysDistinct) (hvalue : value.KeysDistinct) :
    (Yaml.mapping (entries ++ [(key, value)])).KeysDistinct := by
  cases h with
  | mapping hdistinct hkeys hvalues =>
  refine .mapping (List.pairwise_append.mpr ⟨hdistinct, List.pairwise_singleton _ _, ?_⟩)
    (List.forall_mem_append.mpr ⟨hkeys, List.forall_mem_singleton.mpr hkey⟩)
    (List.forall_mem_append.mpr ⟨hvalues, List.forall_mem_singleton.mpr hvalue⟩)
  intro e he e' he'
  obtain rfl := List.mem_singleton.mp he'
  simpa using List.any_eq_false.mp hnew e he

mutual

/-- **What is read once more has different keys in every mapping.** -/
theorem keysDistinct_of_reread : ∀ {y z : Yaml}, y.reread = .ok z → z.KeysDistinct
  | .null, _, h => by
    obtain rfl := Except.ok.inj h
    exact .null
  | .bool b, _, h => by
    obtain rfl := Except.ok.inj h
    exact .bool b
  | .number n, _, h => by
    obtain rfl := Except.ok.inj h
    exact .number n
  | .string s, _, h => by
    obtain rfl := Except.ok.inj h
    exact .string s
  | .sequence items, _, h => by
    rw [reread] at h
    obtain ⟨ys, hys, rfl⟩ := map_eq_ok.mp h
    exact .sequence (keysDistinct_of_rereadItems hys)
  | .mapping entries, _, h => by
    rw [reread] at h
    obtain ⟨es, hes, rfl⟩ := map_eq_ok.mp h
    refine keysDistinct_of_rereadEntries ?_ hes
    exact keysDistinct_empty
  | .tagged tag content, _, h => by
    rw [reread] at h
    obtain ⟨z, hz, rfl⟩ := map_eq_ok.mp h
    exact .tagged _ (keysDistinct_of_reread hz)

theorem keysDistinct_of_rereadItems : ∀ {items ys : List Yaml}, rereadItems items = .ok ys →
    ∀ y ∈ ys, y.KeysDistinct
  | [], _, h => by
    obtain rfl := Except.ok.inj h
    exact fun _ hy => nomatch hy
  | item :: items, _, h => by
    rw [rereadItems] at h
    obtain ⟨y, hy, h⟩ := bind_eq_ok.mp h
    obtain ⟨ys, hys, h⟩ := bind_eq_ok.mp h
    obtain rfl := Except.ok.inj h
    exact List.forall_mem_cons.mpr ⟨keysDistinct_of_reread hy, keysDistinct_of_rereadItems hys⟩

/-- The entries read so far stand in reverse. -/
theorem keysDistinct_of_rereadEntries : ∀ {entries done es : List (Yaml × Yaml)},
    (mapping done.reverse).KeysDistinct → rereadEntries entries done = .ok es →
    (mapping es).KeysDistinct
  | [], _, _, hdone, h => by
    obtain rfl := Except.ok.inj h
    exact hdone
  | (k, v) :: entries, done, _, hdone, h => by
    rw [rereadEntries] at h
    obtain ⟨key, hkey, h⟩ := bind_eq_ok.mp h
    cases hnew : hasKey key done with
    | true => simp [hnew] at h
    | false =>
      rw [hnew, if_neg Bool.false_ne_true] at h
      obtain ⟨value, hvalue, h⟩ := bind_eq_ok.mp h
      refine keysDistinct_of_rereadEntries ?_ h
      rw [List.reverse_cons]
      refine hdone.snoc ?_ (keysDistinct_of_reread hkey) (keysDistinct_of_reread hvalue)
      rw [hasKey, List.any_reverse]
      exact hnew

end

/-! ### Mappings whose keys are texts -/

/-- The mapping of texts to values. -/
def named (entries : List (String × Yaml)) : Yaml :=
  mapping (entries.map fun e => (string e.1, e.2))

theorem Untagged.named {entries : List (String × Yaml)} (h : ∀ e ∈ entries, e.2.Untagged) :
    (named entries).Untagged :=
  .mapping (List.forall_mem_map.mpr fun _ _ => .string _) (List.forall_mem_map.mpr h)

/-- Different texts are different keys. -/
theorem KeysDistinct.named {entries : List (String × Yaml)} (hnodup : (entries.map (·.1)).Nodup)
    (h : ∀ e ∈ entries, e.2.KeysDistinct) : (named entries).KeysDistinct := by
  refine .mapping ?_ (List.forall_mem_map.mpr fun _ _ => .string _) (List.forall_mem_map.mpr h)
  refine List.pairwise_map.mpr ((List.pairwise_map.mp hnodup).imp fun hne => ?_)
  simpa [same] using hne

/-- The text of an untagged key is the key. -/
theorem Untagged.eq_of_text? {y : Yaml} {s : String} (h : y.Untagged) (hs : y.text? = some s) :
    y = .string s := by
  cases h with
  | string =>
    obtain rfl := Option.some.inj hs
    rfl
  | null | bool | number | sequence | mapping => cases hs

/-- Names that are the texts of the untagged keys of a mapping are distinct. -/
theorem nodup_of_keysDistinct {α : Type} {entries : List (Yaml × Yaml)}
    {members : List (String × α)} (huntagged : ∀ e ∈ entries, e.1.Untagged)
    (hdistinct : entries.Pairwise fun e e' => same e.1 e'.1 = false)
    (h : List.Forall₂ (fun e m => e.1.text? = some m.1) entries members) :
    (members.map (·.1)).Nodup := by
  have hkeys : entries.map (·.1) = members.map fun m => string m.1 := by
    rw [← List.forall₂_eq_eq_eq, List.forall₂_map_left_iff, List.forall₂_map_right_iff]
    exact forall₂_imp_of_mem (fun e he m hm => (huntagged e he).eq_of_text? hm) h
  have hpairs : (members.map fun m => string m.1).Pairwise fun y y' => same y y' = false :=
    hkeys ▸ List.pairwise_map.mpr hdistinct
  refine List.pairwise_map.mpr ((List.pairwise_map.mp hpairs).imp fun hne heq => ?_)
  simp [same, heq] at hne

/-! ### Values under a key of a mapping -/

theorem get?_mapping (name : String) (entries : List (Yaml × Yaml)) :
    (mapping entries).get? name = (entries.find? fun e => e.1.isText name).map (·.2) := rfl

theorem get?_mapping_cons (name : String) (key value : Yaml) (entries : List (Yaml × Yaml)) :
    (mapping ((key, value) :: entries)).get? name =
      if key.isText name then some value else (mapping entries).get? name := by
  rw [get?_mapping, get?_mapping, List.find?_cons]
  cases key.isText name <;> rfl

/-- The value under a key is smaller than the mapping. -/
theorem sizeOf_lt_of_get? {name : String} {value : Yaml} : ∀ {y : Yaml},
    y.get? name = some value → sizeOf value < sizeOf y
  | mapping entries, h => by
    obtain ⟨e, hfind, rfl⟩ := Option.map_eq_some_iff.mp h
    have := List.sizeOf_lt_of_mem (List.mem_of_find?_eq_some hfind)
    obtain ⟨key, value⟩ := e
    simp only [mapping.sizeOf_spec, Prod.mk.sizeOf_spec] at *
    omega
  | tagged _ content, h => by
    have := sizeOf_lt_of_get? (y := content) h
    simp only [tagged.sizeOf_spec]
    omega

end SborSchema.Yaml
