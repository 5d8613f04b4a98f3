/-
# Trees in files

A command takes its tree from a file, and reading text has a limit of its own:
127 arrays and objects that lie in one another. A level of a tree costs two or
three of them, so this limit and the one on the depth of a tree measure
different things (`Tree.nesting_bounds`). A file is read exactly when its text
keeps the first limit. That is more than the second one asks for: what is read
is never too deep for the default, but trees that are not too deep for it may
nest too far.

Key definitions: `Session.checkTree`, `Tree.towerOf`.
Key theorems: `Tree.nesting_bounds`, `Session.run_readTree`, `Session.checkValue_compact`.
-/
import SborSchema.Command.Values
import SborSchema.Proofs.Outcome
import SborSchema.Proofs.Tree.Depth
import SborSchema.Proofs.Tree.Text

namespace SborSchema

/-! ### Levels of a tree and levels of its text -/

namespace Tree

mutual

/-- Each level of a tree makes two or three levels of its text, the last one one or two. -/
theorem nesting_bounds : ∀ t : Tree, 2 * t.height ≤ t.nesting + 1 ∧ t.nesting < 3 * t.height
  | leaf .. => by simp [nesting, height]
  | array _ _ elements => by
    have := nestingList_bounds elements
    rw [nesting, height]
    omega
  | map _ _ _ [] => by simp [nesting, height, heightEntries]
  | map _ _ _ (e :: es) => by
    have := nestingEntries_bounds (e :: es)
    rw [nesting, height, if_neg (by simp)]
    simp only [reduceCtorEq, false_or] at this
    omega
  | tuple _ fields => by
    have := nestingList_bounds fields
    rw [nesting, height]
    omega
  | enum _ _ _ fields => by
    have := nestingList_bounds fields
    rw [nesting, height]
    omega

theorem nestingList_bounds : ∀ ts : List Tree,
    2 * heightList ts ≤ nestingList ts + 1 ∧ nestingList ts ≤ 3 * heightList ts
  | [] => by simp [nestingList, heightList]
  | t :: ts => by
    have head := nesting_bounds t
    have tail := nestingList_bounds ts
    rw [nestingList, heightList]
    omega

theorem nestingEntries_bounds : ∀ es : List (Tree × Tree),
    2 * heightEntries es ≤ nestingEntries es + 1 ∧
      (es = [] ∨ nestingEntries es < 3 * heightEntries es)
  | [] => by simp [nestingEntries, heightEntries]
  | (k, v) :: es => by
    have key := nesting_bounds k
    have value := nesting_bounds v
    obtain ⟨hlower, rfl | hupper⟩ := nestingEntries_bounds es
    · simp only [nestingEntries, heightEntries, reduceCtorEq, false_or]
      omega
    · simp only [nestingEntries, heightEntries, reduceCtorEq, false_or]
      omega

end

/-- The compact text of a tree is read as the tree if it does not nest too far. -/
theorem ofText?_compact (t : Tree) :
    ofText? t.toJson.compact = if t.nesting ≤ 127 then some t else none := by
  rw [ofText?, Json.nestingLimit, Json.ofTextWithin?_compact (numberFree_toJson t),
    Json.nestingOfText_compact (numberFree_toJson t), nesting_toJson]
  split
  · exact ofJson?_arranged Json.arranges_id t
  · rfl

/-- Tuples of one field in one another, around an empty one. -/
def towerOf : Nat → Tree
  | 0 => tuple {} []
  | n + 1 => tuple {} [towerOf n]

theorem height_towerOf : ∀ n, (towerOf n).height = n + 1
  | 0 => rfl
  | n + 1 => by
    rw [towerOf, height, heightList, height_towerOf n, heightList]
    omega

theorem nesting_towerOf : ∀ n, (towerOf n).nesting = 2 * n + 2
  | 0 => rfl
  | n + 1 => by
    rw [towerOf, nesting, nestingList, nesting_towerOf n, nestingList]
    omega

end Tree

/-! ### The command -/

namespace Session

/-- What is shown of the outcome of a parse. -/
def showOutcome (d : Definition) (json : Bool) : Except ParseError Value → Session Unit
  | .ok value =>
    if json then say value.toJson.indented
    else do
      say ("✓ " ++ titleText d)
      say value.text
  | .error e => do
    if json then say (Json.object [("error", e.toJson)]).indented else complainOf d e
    fail ("value does not match schema '" ++ d.name ++ "'")

/-- Parses a tree with a registered schema and shows what comes of it. -/
def checkTree (registry : Registry) (schema : String) (version : Option Nat)
    (options : ParseOptions) (json : Bool) (t : Tree) : Session Unit :=
  match registry.get? schema version with
  | none => fail (absentText schema version)
  | some d => showOutcome d json (d.schema.runWithin options.maxDepth t)

/-- The report about a file that holds no tree. -/
def notTree (path : String) : Report :=
  ⟨quotedPath path ++ " is not a programmatic SBOR JSON value", ["not a value tree"]⟩

variable {files : FileSystem} {path text : String}

/-- A file that can be read gives the tree of its text, and nothing is said. -/
theorem run_readTree (hfile : files.readText path = .ok text) (lines : List OutputLine) :
    (readTree files path).run.run lines =
      (match Tree.ofText? text with
        | some t => .ok t
        | none => .error (notTree path), lines) := by
  have hread : (orFail ("read value file " ++ quotedPath path) FileTree.Fault.causes
      (files.readText path)).run.run lines = (.ok text, lines) := by
    rw [hfile]
    rfl
  rw [readTree, run_bind_ok hread]
  cases Tree.ofText? text <;> rfl

/-- Once the tree of the file is read, the command goes on with it. -/
theorem run_checkValue {t : Tree} {lines : List OutputLine}
    (hread : (readTree files path).run.run lines = (.ok t, lines)) (registry : Registry)
    (schema : String) (version : Option Nat) (options : ParseOptions) (json : Bool) :
    (checkValue files registry schema version path options json).run.run lines =
      (checkTree registry schema version options json t).run.run lines := by
  rw [checkValue, checkTree]
  cases registry.get? schema version with
  | none => rfl
  | some d =>
    simp only
    rw [run_bind_ok hread]
    cases d.schema.runWithin options.maxDepth t <;> rfl

/-- **A tree is read from a file of its compact text if and only if the text nests at most 127
arrays and objects**, and then the command shows what the parse makes of the tree. All trees
of at most 42 levels are read, and no tree that is deeper than the default limit. -/
theorem checkValue_compact {t : Tree} (hfile : files.readText path = .ok t.toJson.compact) :
    (∀ lines, (readTree files path).run.run lines =
      (if t.nesting ≤ 127 then .ok t else .error (notTree path), lines)) ∧
    (t.nesting ≤ 127 → ∀ registry schema version options json,
      Transcript.of (checkValue files registry schema version path options json) =
        Transcript.of (checkTree registry schema version options json t)) ∧
    (t.depth ≤ 42 → t.nesting ≤ 127) ∧
    (t.nesting ≤ 127 → t.depth ≤ ParseOptions.default.maxDepth) := by
  have hread : ∀ lines, (readTree files path).run.run lines =
      (if t.nesting ≤ 127 then .ok t else .error (notTree path), lines) := by
    intro lines
    rw [run_readTree hfile, Tree.ofText?_compact]
    by_cases h : t.nesting ≤ 127
    · rw [if_pos h, if_pos h]
    · rw [if_neg h, if_neg h]
  have hbounds := t.nesting_bounds
  refine ⟨hread, fun h registry schema version options json => ?_, fun h => ?_, fun h => ?_⟩
  · have hnil : (readTree files path).run.run [] = (.ok t, []) := by rw [hread, if_pos h]
    rw [Transcript.of, Transcript.of, run_checkValue hnil]
  · rw [t.depth_eq_height] at h
    omega
  · rw [t.depth_eq_height]
    show t.height ≤ 64
    omega

/-- A map of a map is read. -/
theorem checkValue_compact_map :
    let t : Tree := .map {} .string .map
      [(.leaf {} (.string "a"), .map {} .bool .bool [(.leaf {} (.bool true), .leaf {} (.bool false))])]
    let files : FileSystem := fun _ => .ok (.text t.toJson.compact)
    files.readText "t.json" = .ok t.toJson.compact ∧ t.nesting ≤ 127 ∧
      ((readTree files "t.json").run.run []).1 = .ok t := by
  intro t files
  have hfile : files.readText "t.json" = .ok t.toJson.compact := rfl
  have hnesting : t.nesting ≤ 127 := by decide
  refine ⟨hfile, hnesting, ?_⟩
  rw [(checkValue_compact hfile).1, if_pos hnesting]

/-- Sixty-four tuples in one another are as deep as the default limit allows, and are not read. -/
theorem readTree_tower :
    let t := Tree.towerOf 63
    let files : FileSystem := fun _ => .ok (.text t.toJson.compact)
    t.depth ≤ ParseOptions.default.maxDepth ∧
      (readTree files "t.json").run.run [] = (.error (notTree "t.json"), []) := by
  intro t files
  have hfile : files.readText "t.json" = .ok t.toJson.compact := rfl
  have hnesting : ¬t.nesting ≤ 127 := by
    rw [Tree.nesting_towerOf]
    decide
  refine ⟨?_, ?_⟩
  · rw [t.depth_eq_height, Tree.height_towerOf]
    decide
  · rw [run_readTree hfile, Tree.ofText?_compact, if_neg hnesting]

end Session
end SborSchema
