/-
# Arrays and maps read their members in order

An array and a map are read in one way, by what reads an element or an entry
(`readEach`). A member has the same outcome wherever it stands. So the members of
two lists put together are read as those of each list alone, where a failure in
the second one is met further on; the first member to fail is the one reported;
and members in another order have their values in that order (`readsInOrder`).

Key definitions: `readEach`, `readEntry`, `ReadsInOrder`.
Key theorems: `readEach_eq_ok`, `readEach_eq_error`, `readEach_append`, `readsInOrder`,
`collections_read_in_order`.
-/
import Mathlib.Data.List.Forall2
import SborSchema.Proofs.Schema.Placement

namespace SborSchema

variable {τ α κ ν : Type}

/-! ### Members -/

/-- Reads the members of a list; the first stands at position `i`. -/
def readEach (read : τ → Path → Except ParseError α) :
    List τ → Nat → Path → Except ParseError (List α)
  | [], _, _ => .ok []
  | t :: ts, i, p => do
    let a ← read t (p.index i)
    let values ← readEach read ts (i + 1) p
    return a :: values

/-- Reads an entry, the key before the value. -/
def readEntry (key : Schema κ) (value : Schema ν) (entry : Tree × Tree) (p : Path) :
    Except ParseError (κ × ν) := do
  let a ← key.parseGated entry.1 p
  let b ← value.parseGated entry.2 p
  return (a, b)

/-- The elements of an array are members. -/
theorem Schema.parseElements_eq_readEach (s : Schema α) (ts : List Tree) (i : Nat) (p : Path) :
    s.parseElements ts i p = readEach s.parseGated ts i p := by
  induction ts generalizing i with
  | nil => rfl
  | cons t ts ih => rw [parseElements, readEach, ih]

/-- The entries of a map are members. -/
theorem Schema.parseEntries_eq_readEach (key : Schema κ) (value : Schema ν)
    (entries : List (Tree × Tree)) (i : Nat) (p : Path) :
    key.parseEntries value entries i p = readEach (readEntry key value) entries i p := by
  induction entries generalizing i with
  | nil => rfl
  | cons entry entries ih =>
    obtain ⟨k, v⟩ := entry
    rw [parseEntries, readEach, readEntry]
    simp only [bind_assoc, pure_bind, ih]

/-- An array node is read as its elements are. -/
theorem Schema.array_parseGated (s : Schema α) (l : Labels) (k : Kind) (ts : List Tree)
    (p : Path) : (array s).parseGated (.array l k ts) p = readEach s.parseGated ts 0 p := by
  have hgate : (array s).gate (.array l k ts) p = .ok () := if_pos (by simp [array, Tree.kind])
  rw [parseGated, hgate, ok_bind, ← parseElements_eq_readEach]
  rfl

/-- A map node is read as its entries are. -/
theorem Schema.mapping_parseGated (key : Schema κ) (value : Schema ν) (l : Labels) (k k' : Kind)
    (entries : List (Tree × Tree)) (p : Path) :
    (mapping key value).parseGated (.map l k k' entries) p =
      readEach (readEntry key value) entries 0 p := by
  have hgate : (mapping key value).gate (.map l k k' entries) p = .ok () :=
    if_pos (by simp [mapping, Tree.kind])
  rw [parseGated, hgate, ok_bind, ← parseEntries_eq_readEach]
  rfl

/-! ### Two lists put together -/

/-- After the members of one list those of another are read, further on. -/
theorem readEach_append (read : τ → Path → Except ParseError α) (xs ys : List τ) (i : Nat)
    (p : Path) : readEach read (xs ++ ys) i p = do
      let as ← readEach read xs i p
      let bs ← readEach read ys (i + xs.length) p
      return as ++ bs := by
  induction xs generalizing i with
  | nil =>
    rw [List.nil_append, readEach, ok_bind, List.length_nil, Nat.add_zero]
    exact (bind_pure _).symm
  | cons x xs ih =>
    have hnext : i + 1 + xs.length = i + (x :: xs).length := by
      rw [List.length_cons]
      omega
    rw [List.cons_append, readEach, readEach, ih, hnext]
    simp only [bind_assoc, pure_bind, List.cons_append]

section Placed

-- What reads a member reports a failure below the place of the member.
variable {read : τ → Path → Except ParseError α} (hread : ∀ t p, read t p = under p (read t .root))
  {ts : List τ} {i : Nat} {p : Path}

include hread

/-- A member has its value wherever it stands. -/
theorem read_index_eq_ok {t : τ} {a : α} :
    read t (p.index i) = .ok a ↔ read t .root = .ok a := by
  rw [hread t (p.index i), under_eq_ok]

/-- A member that fails does so below its position. -/
theorem read_index_eq_error {t : τ} {err : ParseError} :
    read t (p.index i) = .error err ↔
      ∃ c q, read t .root = .error ⟨c, q⟩ ∧ err = ⟨c, p.segments ++ .index i :: q⟩ := by
  have hpath (r : Route) : (p.index i).segments ++ r = p.segments ++ .index i :: r := by
    rw [Path.index, Path.segments_step, List.append_assoc]
    rfl
  rw [hread t (p.index i), under_eq_error]
  constructor
  · rintro ⟨⟨c, q⟩, hroot, rfl⟩
    exact ⟨c, q, hroot, by rw [hpath]⟩
  · rintro ⟨c, q, hroot, rfl⟩
    exact ⟨⟨c, q⟩, hroot, by rw [hpath]⟩

/-- The members of a list have values if each one has one, wherever the first stands. -/
theorem readEach_eq_ok {values : List α} :
    readEach read ts i p = .ok values ↔
      List.Forall₂ (fun t a => read t .root = .ok a) ts values := by
  induction ts generalizing i values with
  | nil => rw [readEach, Except.ok.injEq, List.forall₂_nil_left_iff, eq_comm]
  | cons t ts ih =>
    rw [readEach, bind_eq_ok, List.forall₂_cons_left_iff]
    constructor
    · rintro ⟨a, ha, h⟩
      obtain ⟨values', hrest, h⟩ := bind_eq_ok.mp h
      have hhead : read t .root = .ok a := (read_index_eq_ok hread).mp ha
      exact ⟨a, values', hhead, ih.mp hrest, (Except.ok.inj h).symm⟩
    · rintro ⟨a, values', hhead, hrest, rfl⟩
      have ha : read t (p.index i) = .ok a := (read_index_eq_ok hread).mpr hhead
      exact ⟨a, ha, bind_eq_ok.mpr ⟨values', ih.mpr hrest, rfl⟩⟩

/-- A failure is that of the first member to fail, with its position in front. -/
theorem readEach_eq_error {err : ParseError} :
    readEach read ts i p = .error err ↔ ∃ front t back c q, ts = front ++ t :: back ∧
      (∀ u ∈ front, ∃ a, read u .root = .ok a) ∧ read t .root = .error ⟨c, q⟩ ∧
      err = ⟨c, p.segments ++ .index (i + front.length) :: q⟩ := by
  induction ts generalizing i with
  | nil =>
    constructor
    · intro h
      cases h
    · rintro ⟨front, t, back, c, q, hts, -⟩
      exact absurd hts.symm (List.append_ne_nil_of_right_ne_nil front (List.cons_ne_nil t back))
  | cons t ts ih =>
    -- A member behind `t` is one position further on than it is behind the rest alone.
    have hshift (front : List τ) : i + 1 + front.length = i + (t :: front).length := by
      rw [List.length_cons]
      omega
    rw [readEach, bind_eq_error]
    constructor
    · rintro (hfail | ⟨a, ha, h⟩)
      · obtain ⟨c, q, hroot, rfl⟩ := (read_index_eq_error hread).mp hfail
        exact ⟨[], t, ts, c, q, rfl, fun u hu => absurd hu List.not_mem_nil, hroot, rfl⟩
      · rcases bind_eq_error.mp h with hrest | ⟨values, -, hpure⟩
        · obtain ⟨front, u, back, c, q, rfl, hfront, hu, rfl⟩ := ih.mp hrest
          have hhead : read t .root = .ok a := (read_index_eq_ok hread).mp ha
          refine ⟨t :: front, u, back, c, q, rfl, ?_, hu, by rw [hshift]⟩
          exact List.forall_mem_cons.mpr ⟨⟨a, hhead⟩, hfront⟩
        · cases hpure
    · rintro ⟨front, u, back, c, q, hts, hfront, hu, rfl⟩
      cases front with
      | nil =>
        obtain ⟨rfl, rfl⟩ := List.cons.inj hts
        exact .inl ((read_index_eq_error hread).mpr ⟨c, q, hu, rfl⟩)
      | cons t' front =>
        obtain ⟨rfl, rfl⟩ := List.cons.inj hts
        obtain ⟨⟨a, hhead⟩, hfront⟩ := List.forall_mem_cons.mp hfront
        have hrest := ih.mpr ⟨front, u, back, c, q, rfl, hfront, hu, by rw [hshift]⟩
        have ha : read t (p.index i) = .ok a := (read_index_eq_ok hread).mpr hhead
        exact .inr ⟨a, ha, bind_eq_error.mpr (.inl hrest)⟩

/-- Members that stand further on have the same values. -/
theorem readEach_eq_ok_start {values : List α} (n : Nat) :
    readEach read ts n p = .ok values ↔ readEach read ts 0 p = .ok values := by
  rw [readEach_eq_ok hread, readEach_eq_ok hread]

/-- Members that stand further on fail further on. -/
theorem readEach_eq_error_start {err : ParseError} (n : Nat) :
    readEach read ts n p = .error err ↔ ∃ c i q,
      readEach read ts 0 p = .error ⟨c, p.segments ++ .index i :: q⟩ ∧
      err = ⟨c, p.segments ++ .index (n + i) :: q⟩ := by
  constructor
  · intro h
    obtain ⟨front, t, back, c, q, hts, hfront, ht, rfl⟩ := (readEach_eq_error hread).mp h
    refine ⟨c, front.length, q, (readEach_eq_error hread).mpr ?_, rfl⟩
    refine ⟨front, t, back, c, q, hts, hfront, ht, ?_⟩
    rw [Nat.zero_add]
  · rintro ⟨c, i, q, h, rfl⟩
    obtain ⟨front, t, back, c', q', hts, hfront, ht, herr⟩ := (readEach_eq_error hread).mp h
    obtain ⟨rfl, hpath⟩ := ParseError.mk.inj herr
    obtain ⟨hindex, rfl⟩ := List.cons.inj (List.append_cancel_left hpath)
    obtain rfl := Segment.index.inj hindex
    refine (readEach_eq_error hread).mpr ⟨front, t, back, c, q, hts, hfront, ht, ?_⟩
    rw [Nat.zero_add]

end Placed

/-! ### Other orders -/

/-- Lists that correspond are put in another order together. -/
theorem exists_forall₂_perm {R : τ → α → Prop} {l l' : List τ} (hperm : l.Perm l')
    {values : List α} (h : List.Forall₂ R l values) :
    ∃ values', List.Forall₂ R l' values' ∧ (l.zip values).Perm (l'.zip values') := by
  induction hperm generalizing values with
  | nil => exact ⟨values, h, .refl _⟩
  | cons t _ ih =>
    cases h with
    | cons hhead htail =>
      obtain ⟨values', hvalues', hzip⟩ := ih htail
      exact ⟨_ :: values', .cons hhead hvalues', hzip.cons _⟩
  | swap t u l =>
    cases h with
    | cons hfirst htail =>
      cases htail with
      | cons hsecond htail => exact ⟨_, .cons hsecond (.cons hfirst htail), .swap _ _ _⟩
  | trans _ _ ih ih' =>
    obtain ⟨values', hvalues', hzip⟩ := ih h
    obtain ⟨values'', hvalues'', hzip'⟩ := ih' hvalues'
    exact ⟨values'', hvalues'', hzip.trans hzip'⟩

/-! ### Collections -/

/-- A parser of lists goes through them in order, with `read` for each member. -/
structure ReadsInOrder (read : τ → Except ParseError α)
    (parse : List τ → Path → Except ParseError (List α)) : Prop where
  /-- Two lists put together have values if both lists have, and these are put together. -/
  append_ok (xs ys : List τ) (p : Path) (cs : List α) : parse (xs ++ ys) p = .ok cs ↔
    ∃ as bs, parse xs p = .ok as ∧ parse ys p = .ok bs ∧ cs = as ++ bs
  /-- Two lists put together fail as the first one does, or if that one has values as the second
  one does, with its index raised by the length of the first. -/
  append_error (xs ys : List τ) (p : Path) (err : ParseError) : parse (xs ++ ys) p = .error err ↔
    parse xs p = .error err ∨ ∃ as c i q, parse xs p = .ok as ∧
      parse ys p = .error ⟨c, p.segments ++ .index i :: q⟩ ∧
      err = ⟨c, p.segments ++ .index (xs.length + i) :: q⟩
  /-- The values are those of the members, one for each and in their order. -/
  ok_iff (ts : List τ) (p : Path) (as : List α) :
    parse ts p = .ok as ↔ List.Forall₂ (fun t a => read t = .ok a) ts as
  /-- A failure is that of the first member to fail, below its index. -/
  error_iff (ts : List τ) (p : Path) (err : ParseError) : parse ts p = .error err ↔
    ∃ front t back c q, ts = front ++ t :: back ∧ (∀ u ∈ front, ∃ a, read u = .ok a) ∧
      read t = .error ⟨c, q⟩ ∧ err = ⟨c, p.segments ++ .index front.length :: q⟩
  /-- The same members in another order have the same values in that order. -/
  perm (ts ts' : List τ) (p : Path) (as : List α) : ts.Perm ts' → parse ts p = .ok as →
    ∃ as', parse ts' p = .ok as' ∧ as.Perm as' ∧ (ts.zip as).Perm (ts'.zip as')

/-- **What is read member by member is read in order**, if a member has the same outcome
wherever it stands. -/
theorem readsInOrder {read : τ → Path → Except ParseError α}
    (hread : ∀ t p, read t p = under p (read t .root)) :
    ReadsInOrder (fun t => read t .root) fun ts => readEach read ts 0 where
  append_ok xs ys p cs := by
    rw [readEach_append, Nat.zero_add, bind_eq_ok]
    constructor
    · rintro ⟨as, has, h⟩
      obtain ⟨bs, hbs, h⟩ := bind_eq_ok.mp h
      exact ⟨as, bs, has, (readEach_eq_ok_start hread xs.length).mp hbs, (Except.ok.inj h).symm⟩
    · rintro ⟨as, bs, has, hbs, rfl⟩
      have hlater := (readEach_eq_ok_start hread xs.length).mpr hbs
      exact ⟨as, has, bind_eq_ok.mpr ⟨bs, hlater, rfl⟩⟩
  append_error xs ys p err := by
    rw [readEach_append, Nat.zero_add, bind_eq_error]
    refine or_congr_right ?_
    constructor
    · rintro ⟨as, has, h⟩
      rcases bind_eq_error.mp h with hlater | ⟨bs, -, hpure⟩
      · obtain ⟨c, i, q, hys, rfl⟩ := (readEach_eq_error_start hread xs.length).mp hlater
        exact ⟨as, c, i, q, has, hys, rfl⟩
      · cases hpure
    · rintro ⟨as, c, i, q, has, hys, rfl⟩
      have hlater := (readEach_eq_error_start hread xs.length).mpr ⟨c, i, q, hys, rfl⟩
      exact ⟨as, has, bind_eq_error.mpr (.inl hlater)⟩
  ok_iff ts p as := readEach_eq_ok hread
  error_iff ts p err := by
    rw [readEach_eq_error hread]
    simp only [Nat.zero_add]
  perm ts ts' p as hperm h := by
    obtain ⟨as', has', hzip⟩ := exists_forall₂_perm hperm ((readEach_eq_ok hread).mp h)
    have hlength := ((readEach_eq_ok hread).mp h).length_eq
    have hvalues : as.Perm as' := by
      have hsecond := hzip.map Prod.snd
      rwa [List.map_snd_zip hlength.ge, List.map_snd_zip has'.length_eq.ge] at hsecond
    exact ⟨as', (readEach_eq_ok hread).mpr has', hvalues, hzip⟩

/-- A schema has the same outcome wherever a tree stands. -/
theorem SchemaTerm.parseGated_under {Γ : List Type} (e : SchemaTerm [] Γ α) (t : Tree) (p : Path) :
    (e.schema .nil .detached).parseGated t p = under p ((e.schema .nil .detached).run t) :=
  (e.placedOn p t).behindGate .root

/-- **Arrays and maps are parsed in order**, by what their schemas make of the members alone,
where a key comes before its value. -/
theorem collections_read_in_order :
    (∀ {Γ : List Type} {α : Type} (e : SchemaTerm [] Γ α) (l : Labels) (k : Kind),
      let s := e.schema .nil .detached
      ReadsInOrder s.run fun ts => (Schema.array s).parseGated (.array l k ts)) ∧
    ∀ {Γ Γ' : List Type} {κ ν : Type} (e : SchemaTerm [] Γ κ) (e' : SchemaTerm [] Γ' ν)
      (l : Labels) (k k' : Kind),
      let key := e.schema .nil .detached
      let value := e'.schema .nil .detached
      ReadsInOrder (fun entry : Tree × Tree => do
          let a ← key.run entry.1
          let b ← value.run entry.2
          return (a, b))
        fun entries => (Schema.mapping key value).parseGated (.map l k k' entries) := by
  refine ⟨fun e l k => ?_, fun e e' l k k' => ?_⟩
  · intro s
    have harray : (fun ts => (Schema.array s).parseGated (.array l k ts)) =
        fun ts => readEach s.parseGated ts 0 := by
      funext ts p
      exact Schema.array_parseGated s l k ts p
    rw [harray]
    exact readsInOrder e.parseGated_under
  · intro key value
    have hmapping : (fun entries => (Schema.mapping key value).parseGated (.map l k k' entries)) =
        fun entries => readEach (readEntry key value) entries 0 := by
      funext entries p
      exact Schema.mapping_parseGated key value l k k' entries p
    have hentry (entry : Tree × Tree) (p : Path) :
        readEntry key value entry p = under p (readEntry key value entry .root) := by
      rw [readEntry, readEntry, under_bind, e.parseGated_under entry.1 p]
      refine bind_congr fun a => ?_
      rw [under_bind, e'.parseGated_under entry.2 p]
      rfl
    rw [hmapping]
    exact readsInOrder hentry

/-- Behind two more truth values a text is met two positions further on, and a bad key is
reported and not the bad value behind it. -/
theorem collections_read_in_order_bool :
    let e : SchemaTerm [] [] Bool := .leaf .bool
    let s := e.schema .nil .detached
    let elements (ts : List Tree) := (Schema.array s).parseGated (.array {} .bool ts) .root
    let entries (es : List (Tree × Tree)) :=
      (Schema.mapping s s).parseGated (.map {} .bool .bool es) .root
    let good : Tree := .leaf {} (.bool true)
    let bad (content : Leaf) : Tree := .leaf {} content
    elements [good, bad (.string "x")] =
      .error ⟨.wrongKind (.single .bool) .string, [.index 1]⟩ ∧
    elements ([good, good] ++ [good, bad (.string "x")]) =
      .error ⟨.wrongKind (.single .bool) .string, [.index 3]⟩ ∧
    entries [(good, good), (bad (.own "y"), bad (.string "x"))] =
      .error ⟨.wrongKind (.single .bool) .own, [.index 1]⟩ := by
  intro e s elements entries good bad
  have harray := collections_read_in_order.1 e {} .bool
  have hmapping := collections_read_in_order.2 e e {} .bool .bool
  have hschema : s = Schema.bool := by
    simp only [s, e, SchemaTerm.schema, SchemaTerm.interpret]
    rfl
  have hgood : s.run (.leaf {} (.bool true)) = .ok true := by
    rw [hschema]
    decide
  have htext : s.run (.leaf {} (.string "x")) =
      .error ⟨.wrongKind (.single .bool) .string, []⟩ := by
    rw [hschema]
    decide
  have hown : s.run (.leaf {} (.own "y")) = .error ⟨.wrongKind (.single .bool) .own, []⟩ := by
    rw [hschema]
    decide
  have hfirst : elements [good, good] = .ok [true, true] :=
    (harray.ok_iff [good, good] .root [true, true]).mpr (.cons hgood (.cons hgood .nil))
  have hsecond : elements [good, bad (.string "x")] =
      .error ⟨.wrongKind (.single .bool) .string, [.index 1]⟩ := by
    refine (harray.error_iff _ .root _).mpr ⟨[good], _, [], _, _, rfl, ?_, htext, rfl⟩
    exact List.forall_mem_singleton.mpr ⟨true, hgood⟩
  refine ⟨hsecond, ?_, ?_⟩
  · exact (harray.append_error [good, good] _ .root _).mpr
      (.inr ⟨[true, true], _, 1, [], hfirst, hsecond, rfl⟩)
  · refine (hmapping.error_iff _ .root _).mpr ⟨[(good, good)], _, [], _, _, rfl, ?_, ?_, rfl⟩
    · refine List.forall_mem_singleton.mpr ⟨(true, true), ?_⟩
      rw [hgood, ok_bind, ok_bind]
      rfl
    · rw [hown, error_bind]

end SborSchema
