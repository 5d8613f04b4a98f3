/-
# Checking fixtures

Every fixture below a directory is checked, in the order of their places, and
the outcomes are counted. A file that is no fixture counts as failed. With a
name of a schema, the fixtures of others are passed over.

Key definitions: `Session.checkFixtures`.
-/
import SborSchema.Command.Definitions
import SborSchema.Fixture

namespace SborSchema

/-- How many fixtures passed, failed and were passed over. -/
structure FixtureCounts where
  passed : Nat
  failed : Nat
  skipped : Nat
deriving DecidableEq, Repr

namespace Session

/-- The files of fixtures below a directory by their paths, in the order of their places; a
directory counts if its name does. -/
def fixturePlaces (directory : String) (t : FileTree) : List (String × FileTree) :=
  let isWanted (e : List String × FileTree) : Bool :=
    (FileTree.nameAt? directory e.1).bind FileTree.extension? == some "json"
  ((t.target.places.filter isWanted).mergeSort fun a b => FileTree.comesBefore a.1 b.1).map fun e =>
    (FileTree.placePath directory e.1, e.2)

/-- The fixture of a file, or why it is none. -/
def readFixture (file : FileTree) : Except String Fixture := do
  let text ← file.content.mapError FileTree.Fault.message
  match Fixture.ofText? text with
  | some f => return f
  | none => .error "not a fixture"

/-- Checks one fixture and says whether it passed. -/
def checkFixture (registry : Registry) (options : ParseOptions) (verbose : Bool) (path : String)
    (f : Fixture) : Session Bool := do
  let title := f.description.getD f.schema
  match f.check registry options with
  | [] =>
    say ("  ✓ " ++ title)
    if verbose then say ("      " ++ path)
    return true
  | mismatches =>
    complain ("  ✗ " ++ title)
    mismatches.forM fun m => complain ("      " ++ m.message)
    return false

/-- Checks files of fixtures one after the other. -/
def checkEach (registry : Registry) (options : ParseOptions) (verbose : Bool)
    (schema : Option String) :
    List (String × FileTree) → FixtureCounts → Session FixtureCounts
  | [], counts => return counts
  | (path, file) :: rest, counts => do
    let counts ← match readFixture file with
      | .error reason => do
        complain ("  ✗ " ++ path ++ ": " ++ reason)
        pure { counts with failed := counts.failed + 1 }
      | .ok f =>
        if schema.any (· ≠ f.schema) then
          pure { counts with skipped := counts.skipped + 1 }
        else do
          if ← checkFixture registry options verbose path f then
            pure { counts with passed := counts.passed + 1 }
          else pure { counts with failed := counts.failed + 1 }
    checkEach registry options verbose schema rest counts

/-- Checks the fixtures of a directory. -/
def checkFixtures (files : FileSystem) (registry : Registry) (options : ParseOptions)
    (verbose : Bool) (directory : String) (schema : Option String) : Session Unit := do
  match files directory with
  | .error _ => say ("Fixtures directory " ++ quotedPath directory ++ " not found, skipping")
  | .ok t =>
    let places := fixturePlaces directory t
    let counts ← checkEach registry options verbose schema places ⟨0, 0, 0⟩
    say ""
    say ("Results: " ++ Digits.text counts.passed ++ " passed, " ++ Digits.text counts.failed ++
      " failed, " ++ Digits.text counts.skipped ++ " skipped  (total fixtures: " ++
      Digits.text places.length ++ ")")
    if 0 < counts.failed then fail (Digits.text counts.failed ++ " fixture(s) failed")

end Session

end SborSchema
