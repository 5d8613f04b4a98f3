/-
# Commands on values

One command parses the tree of a file with a registered schema and shows the
value or the error. Another parses it many times and counts.

Key definitions: `Session.checkValue`, `Session.measure`.
-/
import SborSchema.Batch
import SborSchema.Command.Definitions

namespace SborSchema.Session

/-- The tree of a file. -/
def readTree (files : FileSystem) (path : String) : Session Tree := do
  let text ← orFail ("read value file " ++ quotedPath path) FileTree.Fault.causes
    (files.readText path)
  match Tree.ofText? text with
  | some t => return t
  | none =>
    throw ⟨quotedPath path ++ " is not a programmatic SBOR JSON value", ["not a value tree"]⟩

/-- The wording of a schema that is not there. -/
def absentText (schema : String) : Option Nat → String
  | some v => "schema '" ++ schema ++ "' v" ++ Digits.text v ++ " is not registered"
  | none => "schema '" ++ schema ++ "' has no non-deprecated version registered"

/-- A schema with its version. -/
def titleText (d : Definition) : String := d.name ++ " v" ++ Digits.text d.version

/-- Shows an error. -/
def complainOf (d : Definition) (e : ParseError) : Session Unit := do
  complain ("✗ " ++ titleText d)
  complain ("  Kind:    " ++ e.cause.kind.name)
  complain ("  Message: " ++ e.cause.message)
  if !e.path.isEmpty then complain ("  Path:    " ++ e.path.text)

/-- Parses the tree of a file and shows what comes of it. -/
def checkValue (files : FileSystem) (registry : Registry) (schema : String)
    (version : Option Nat) (path : String) (options : ParseOptions) (json : Bool) :
    Session Unit := do
  match registry.get? schema version with
  | none => fail (absentText schema version)
  | some d =>
    let tree ← readTree files path
    match d.schema.runWithin options.maxDepth tree with
    | .ok value =>
      if json then say value.toJson.indented
      else
        say ("✓ " ++ titleText d)
        say value.text
    | .error e =>
      if json then say (Json.object [("error", e.toJson)]).indented
      else complainOf d e
      fail ("value does not match schema '" ++ d.name ++ "'")

/-- A part of a whole as a percentage with one digit after the point. -/
def percentText (part whole : Nat) : String :=
  decimalText 1 (roundedQuotient (1000 * part) (max whole 1)) ++ "%"

/-- Parses the tree of a file many times, on workers from the pool, and counts. -/
def measure (pool : Nat → Except String Unit) (files : FileSystem) (registry : Registry)
    (schema path : String) (iterations workers : Nat) (options : ParseOptions) : Session Unit := do
  match registry.get? schema none with
  | none => fail ("schema '" ++ schema ++ "' not registered")
  | some d =>
    let tree ← readTree files path
    say ("Benchmarking '" ++ d.name ++ "' v" ++ Digits.text d.version ++ ": " ++
      Digits.text iterations ++ " iterations ...")
    let plan := { Batch.Plan.default with workers, options }
    let result ← orReport (fun stop => ⟨stop.message, stop.causes⟩)
      (Batch.parse pool d.schema plan (List.replicate iterations tree))
    say "Results:"
    say ("  Total:      " ++ Digits.text result.total ++ " values")
    say ("  Parsed:     " ++ Digits.text result.values.length ++ " (" ++
      percentText result.values.length result.total ++ ")")
    say ("  Failed:     " ++ Digits.text result.skipped)
    sayTiming result.total

end SborSchema.Session
