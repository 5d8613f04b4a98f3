/-
# Outcomes pinned by fixtures

What came out of a tree can be recorded as a fixture document: the output as
JSON, or the sort and the path of the error. The reader finds in the document
what was recorded, and the check passes exactly if that is what comes out
again. One output cannot be pinned: an absent option is null as JSON, and the
reader takes a null for a field that is not there, so that such a document
seems to record nothing.

Key definitions: `Fixture.Recording`, `Fixture.Recording.document`, `Fixture.Recording.Same`.
Key theorems: `Fixture.compare_eq_nil_iff`, `Fixture.Recording.ofJson?_document`,
`Fixture.check_document_iff`.
-/
import SborSchema.Fixture
import SborSchema.Proofs.Tree.Depth
import SborSchema.Proofs.Tree.Json
import SborSchema.Proofs.TypeExpr.Faithful

namespace SborSchema

/-- Texts are read back from a list of them. -/
theorem Json.texts?_map (texts : List String) :
    Json.texts? (.array (texts.map .string)) = some texts := by
  rw [Json.texts?]
  induction texts with
  | nil => rfl
  | cons text texts ih =>
    rw [List.map_cons, List.mapM_cons, ih]
    rfl

/-- A number below the bound is read back. -/
theorem Json.natBelow?_ofNat {bound v : Nat} (h : v < bound) :
    Json.natBelow? bound (.ofNat v) = some v := by
  have hbound : (0 : Int) ≤ v ∧ (v : Int) < bound := by omega
  simp only [Json.ofNat, Json.ofInt, Json.natBelow?]
  rw [if_pos hbound]
  rfl

namespace Fixture

/-! ### The check -/

/-- An error is as recorded if its sort and its path are, as far as they are recorded. -/
theorem checkError_eq_nil_iff (wanted : ExpectedError) (e : ParseError) :
    checkError wanted e = [] ↔
      (∀ kind ∈ wanted.kind, kind = e.cause.kind) ∧ ∀ path ∈ wanted.path, path = e.path.texts := by
  rw [checkError, List.append_eq_nil_iff, Option.toList_eq_nil_iff, Option.toList_eq_nil_iff,
    Option.map_eq_none_iff, Option.map_eq_none_iff, Option.filter_eq_none_iff,
    Option.filter_eq_none_iff]
  simp

/-- **A fixture passes exactly if it records an output that comes out, or of an error nothing
but what the error that comes out has.** -/
theorem compare_eq_nil_iff (f : Fixture) (outcome : Except ParseError Value) :
    f.compare outcome = [] ↔
      (∃ wanted v, f.expected = some wanted ∧ f.expectedError = none ∧ outcome = .ok v ∧
        v.toJson.sameContent wanted = true) ∨
      ∃ wanted e, f.expected = none ∧ f.expectedError = some wanted ∧ outcome = .error e ∧
        (∀ kind ∈ wanted.kind, kind = e.cause.kind) ∧
        ∀ path ∈ wanted.path, path = e.path.texts := by
  obtain ⟨description, schema, version, value, expected, expectedError⟩ := f
  cases expected with
  | none =>
    cases expectedError with
    | none => simp [compare]
    | some wanted =>
      cases outcome with
      | ok v => simp [compare]
      | error e => simpa [compare] using checkError_eq_nil_iff wanted e
  | some wanted =>
    cases expectedError with
    | some _ => simp [compare]
    | none =>
      cases outcome with
      | ok v => simp [compare]
      | error e => simp [compare]

/-! ### Documents -/

/-- What a document may record: an output, or the sort and the path of an error. -/
inductive Recording
  | output (j : Json)
  | error (kind : FaultKind) (path : List String)

namespace Recording

/-- What is recorded of an outcome. -/
def ofOutcome : Except ParseError Value → Recording
  | .ok v => output v.toJson
  | .error e => error e.cause.kind e.path.texts

/-- Two recordings are of one outcome; the order of the members of an output does not count. -/
def Same : Recording → Recording → Prop
  | output j, output j' => j.sameContent j' = true
  | error kind path, error kind' path' => kind' = kind ∧ path' = path
  | _, _ => False

/-- The recorded output. -/
def output? : Recording → Option Json
  | output j => some j
  | error .. => none

/-- The recorded error as JSON. -/
def error? : Recording → Option Json
  | output _ => none
  | error kind path =>
    some (.object [("kind", .string kind.name), ("path", .array (path.map .string))])

/-- The recorded error as the reader gives it: nothing of it is left open. -/
def expectedError? : Recording → Option ExpectedError
  | output _ => none
  | error kind path => some ⟨some kind, some path⟩

variable (r : Recording) (description : Option String) (schema : String) (version : Option Nat)
  (t : Tree)

/-- The document that records what a schema makes of a tree. -/
def document : Json :=
  .objectOf [Json.optional "description" description, some ("schema", .string schema),
    version.map fun v => ("version", .ofNat v), some ("value", t.toJson),
    r.output?.map fun j => ("expected", j), r.error?.map fun j => ("expectedError", j)]

/-- What the reader finds in the document: a null is no output. -/
def fixture : Fixture where
  description
  schema
  version
  value := t
  expected := r.output?.filter (· != .null)
  expectedError := r.expectedError?

/-- Each part of the document stands under its name, once. -/
theorem exists_members : ∃ members,
    r.document description schema version t = .object members ∧
    Json.memberOnce "description" members = some (description.map .string) ∧
    Json.memberOnce "schema" members = some (some (.string schema)) ∧
    Json.memberOnce "version" members = some (version.map .ofNat) ∧
    Json.memberOnce "value" members = some (some t.toJson) ∧
    Json.memberOnce "expected" members = some r.output? ∧
    Json.memberOnce "expectedError" members = some r.error? := by
  refine ⟨_, rfl, ?_⟩
  cases r <;> cases description <;> cases version <;>
    exact ⟨rfl, rfl, rfl, rfl, rfl, rfl⟩

theorem read_output? :
    Json.orNull? some r.output? = some (r.output?.filter (· != .null)) := by
  cases r with
  | error _ _ => rfl
  | output j => cases j <;> rfl

theorem read_error? : Json.orNull? errorOf? r.error? = some r.expectedError? := by
  cases r with
  | output _ => rfl
  | error kind path =>
    have hkind : FaultKind.ofJson? (.string kind.name) = some kind := kind.ofName?_name
    have hpath : Json.texts? (.array (path.map .string)) = some path := Json.texts?_map path
    show (errorOfFields? (some (.string kind.name)) (some (.array (path.map .string)))).map some = _
    simp only [errorOfFields?, Json.orNull?, hkind, hpath]
    rfl

/-- **The reader finds in a document what was recorded**, unless it was a null. -/
theorem ofJson?_document (hversion : ∀ v ∈ version, v < 2 ^ 32) :
    ofJson? (r.document description schema version t) =
      some (r.fixture description schema version t) := by
  obtain ⟨members, hdocument, hdescription, hschema, hversions, hvalue, hexpected, herror⟩ :=
    r.exists_members description schema version t
  have hreadDescription : Json.orNull? Json.text? (description.map .string) =
      some description := by
    cases description <;> rfl
  have hreadVersion : Json.orNull? (Json.natBelow? (1 <<< 32)) (version.map .ofNat) =
      some version := by
    cases version with
    | none => rfl
    | some v =>
      have hv : Json.natBelow? (1 <<< 32) (.ofNat v) = some v :=
        Json.natBelow?_ofNat (hversion v rfl)
      show (Json.natBelow? (1 <<< 32) (.ofNat v)).map some = _
      rw [hv]
      rfl
  have hreadTree : Tree.ofJson? t.toJson = some t := Tree.ofJson?_arranged Json.arranges_id t
  rw [hdocument, ofJson?]
  simp only [hdescription, hschema, hversions, hvalue, hexpected, herror, Option.bind_eq_bind,
    Option.bind_some]
  simp only [ofFields?, hreadDescription, hreadVersion, hreadTree, r.read_output?, r.read_error?,
    Json.text?, Option.bind_eq_bind, Option.bind_some]
  rfl

/-- A document passes exactly if it records the outcome, and not as a null. -/
theorem compare_fixture_iff (outcome : Except ParseError Value) :
    (r.fixture description schema version t).compare outcome = [] ↔
      (ofOutcome outcome).Same r ∧ r ≠ output .null := by
  rw [compare_eq_nil_iff]
  cases r with
  | output j =>
    cases outcome with
    | error e => simp [fixture, output?, expectedError?, ofOutcome, Same]
    | ok v =>
      by_cases hj : j = .null
      · simp [fixture, output?, expectedError?, hj]
      · simp [fixture, output?, expectedError?, ofOutcome, Same, hj]
  | error kind path =>
    cases outcome with
    | ok v => simp [fixture, output?, expectedError?, ofOutcome, Same]
    | error e => simp [fixture, output?, expectedError?, ofOutcome, Same]

end Recording

/-- Only an absent option is recorded as a null. -/
theorem same_null_iff {type : TypeExpr} {limit : Nat} {t : Tree} {r : Recording}
    (h : (Recording.ofOutcome (type.schema.runWithin limit t)).Same r) :
    r = .output .null ↔ type.schema.runWithin limit t = .ok (.option none) := by
  cases houtcome : type.schema.runWithin limit t with
  | error e =>
    rw [houtcome] at h
    cases r with
    | output j => cases h
    | error kind path => simp
  | ok v =>
    rw [houtcome] at h
    cases r with
    | error kind path => cases h
    | output j =>
      have hsorted : v.toJson.sorted = j.sorted := (Json.sameContent_iff _ _).mp h
      have hyields : type.schema.Yields v := ⟨t, .root, Schema.run_of_runWithin houtcome⟩
      rw [Recording.output.injEq, Except.ok.injEq]
      constructor
      · rintro rfl
        exact TypeExpr.eq_absent_of_null Json.arranges_sorted hyields hsorted
      · rintro rfl
        exact Json.eq_null_of_sorted hsorted.symm

/-- **A document passes exactly if it records what comes out**, and that is not an absent
option: of all outcomes, this one no document pins. Versions are numbers of 32 bits. -/
theorem check_document_iff {registry : Registry} {schema : String} {version : Option Nat}
    {d : Definition} (hd : registry.get? schema version = some d)
    (hversion : ∀ v ∈ version, v < 2 ^ 32) (options : ParseOptions)
    (description : Option String) (t : Tree) (r : Recording) :
    ∃ f, ofJson? (r.document description schema version t) = some f ∧
      (f.check registry options = [] ↔
        (Recording.ofOutcome (d.schema.runWithin options.maxDepth t)).Same r ∧
          d.schema.runWithin options.maxDepth t ≠ .ok (.option none)) := by
  refine ⟨_, r.ofJson?_document description schema version t hversion, ?_⟩
  have hcheck : (r.fixture description schema version t).check registry options =
      (r.fixture description schema version t).compare
        (d.schema.runWithin options.maxDepth t) := by
    simp only [check, Recording.fixture, hd]
  rw [hcheck, r.compare_fixture_iff]
  exact and_congr_right fun hsame => not_congr (same_null_iff hsame)

/-- A document that records what comes out passes, one that records something else fails. -/
theorem check_document_iff_flag :
    let d : Definition := .plain "Flag" 1 false (.leaf .bool)
    let registry : Registry := Registry.empty.insert d
    let t : Tree := .leaf {} (.bool true)
    registry.get? "Flag" (some 1) = some d ∧ (∀ v ∈ some 1, v < 2 ^ 32) ∧
    (∃ f, ofJson? ((Recording.output (.bool true)).document none "Flag" (some 1) t) = some f ∧
      f.check registry .default = []) ∧
    ∃ f, ofJson? ((Recording.output (.bool false)).document none "Flag" (some 1) t) = some f ∧
      f.check registry .default ≠ [] := by
  intro d registry t
  have hd : registry.get? "Flag" (some 1) = some d := rfl
  have hversion : ∀ v ∈ some 1, v < 2 ^ 32 := by simp
  have hdepth : t.depth = 1 := by
    rw [Tree.depth_eq_height, Tree.height]
  have hread : (TypeExpr.leaf .bool).schema.run (.leaf {} (.bool true)) = .ok (.bool true) := rfl
  have hrun : d.schema.runWithin 64 t = .ok (.bool true) := by
    rw [Schema.runWithin, hdepth, if_neg (by decide)]
    exact hread
  refine ⟨hd, hversion, ?_, ?_⟩
  · obtain ⟨f, hf, hcheck⟩ :=
      check_document_iff hd hversion .default none t (.output (.bool true))
    refine ⟨f, hf, hcheck.mpr ?_⟩
    show (Recording.ofOutcome (d.schema.runWithin 64 t)).Same _ ∧ d.schema.runWithin 64 t ≠ _
    rw [hrun]
    refine ⟨rfl, fun habsent => ?_⟩
    cases habsent
  · obtain ⟨f, hf, hcheck⟩ :=
      check_document_iff hd hversion .default none t (.output (.bool false))
    refine ⟨f, hf, fun hpass => ?_⟩
    have hsame : (Recording.ofOutcome (d.schema.runWithin 64 t)).Same (.output (.bool false)) :=
      (hcheck.mp hpass).1
    rw [hrun] at hsame
    cases hsame

/-- An absent option comes out, is recorded as a null, and is said to be recorded by nothing. -/
theorem check_document_absent :
    let d : Definition := .plain "Maybe" 1 false (.option (.leaf .bool))
    let registry : Registry := Registry.empty.insert d
    let t : Tree := .enum {} "0" (some "None") []
    registry.get? "Maybe" (some 1) = some d ∧
    d.schema.runWithin 64 t = .ok (.option none) ∧
    ∃ f, ofJson? ((Recording.ofOutcome (d.schema.runWithin 64 t)).document none "Maybe" (some 1) t) =
        some f ∧
      f.check registry .default = [.unclear] := by
  intro d registry t
  have hd : registry.get? "Maybe" (some 1) = some d := rfl
  have hdepth : t.depth = 1 := by
    rw [Tree.depth_eq_height, Tree.height, Tree.heightList]
  have hread : (TypeExpr.option (.leaf .bool)).schema.run (.enum {} "0" (some "None") []) =
      .ok (.option none) := rfl
  have hrun : d.schema.runWithin 64 t = .ok (.option none) := by
    rw [Schema.runWithin, hdepth, if_neg (by decide)]
    exact hread
  refine ⟨hd, hrun, _, Recording.ofJson?_document _ none "Maybe" (some 1) t (by simp), ?_⟩
  show compare _ (d.schema.runWithin 64 t) = [.unclear]
  rw [hrun]
  rfl

end Fixture

end SborSchema
