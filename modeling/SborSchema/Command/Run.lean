/-
# Running a command

The settings are read first, whatever the command. A directory of schemas that
a command does not name is the one of the settings.

Key definitions: `Invocation.run`, `Invocation.neededPaths`.
-/
import SborSchema.Command.Arguments
import SborSchema.Command.Fixtures
import SborSchema.Command.Values
import SborSchema.Settings.Document

namespace SborSchema

namespace Session

/-- What the program can do. -/
def sayInfo : Session Unit :=
  ["SBORCodec v0.1.0", "", "Capabilities:",
    "  ✓ Programmatic SBOR JSON   (Radix Gateway value trees)",
    "  ✓ Typed schema combinators (struct, tuple, enum, option, map, array)",
    "  ✓ Integer range checks     (i8..i128, u8..u128)",
    "  ✓ Recursive schemas        (Arc/Weak knot tying)",
    "  ✓ YAML schema definitions  (multi-doc, versioned)",
    "  ✓ In-memory registry       (indexed by name + version)",
    "  ✓ Parallel batch parse     (Rayon)", "",
    "Bundled schemas:             vault, account, pool, validator"].forM say

/-- The settings of a file, or the default ones if there is none. -/
def readSettings (files : FileSystem) : Option String → Session Settings
  | none => return .default
  | some path => do
    let text ← orFail ("read config file " ++ quotedPath path) FileTree.Fault.causes
      (files.readText path)
    orFail ("parse config file " ++ quotedPath path) (fun f => [f.message])
      (Settings.ofText text)

/-- Runs a command. -/
def runCommand (pool : Nat → Except String Unit) (files : FileSystem) (settings : Settings)
    (verbose : Bool) : Command → Session Unit
  | .parse file => showDefinitions files verbose file
  | .check schema version value directory json => do
    let registry ← loadRegistry files (directory.getD settings.schemaDirectory)
    checkValue files registry schema version value settings.parse json
  | .test fixtures directory schema => do
    let registry ← loadRegistry files (directory.getD settings.schemaDirectory)
    checkFixtures files registry settings.parse verbose fixtures schema
  | .bench schema value directory iterations workers => do
    let registry ← loadRegistry files (directory.getD settings.schemaDirectory)
    measure pool files registry schema value iterations workers settings.parse
  | .listSchemas directory => listSchemas files (directory.getD settings.schemaDirectory)
  | .validateSchemas directory => validateSchemas files (directory.getD settings.schemaDirectory)
  | .info => sayInfo

end Session

/-- The paths a command looks at, besides that of the settings. -/
def Command.neededPaths (settings : Settings) : Command → List String
  | parse file => [file]
  | check _ _ value directory _ => [directory.getD settings.schemaDirectory, value]
  | test fixtures directory _ => [directory.getD settings.schemaDirectory, fixtures]
  | bench _ value directory _ _ => [directory.getD settings.schemaDirectory, value]
  | listSchemas directory => [directory.getD settings.schemaDirectory]
  | validateSchemas directory => [directory.getD settings.schemaDirectory]
  | info => []

namespace Invocation

/-- What a command leaves behind; `pool` gives it workers, or the reason why it cannot. -/
def run (files : FileSystem) (i : Invocation)
    (pool : Nat → Except String Unit := fun _ => .ok ()) : Transcript :=
  .of do
    let settings ← Session.readSettings files i.config
    Session.runCommand pool files settings i.verbose i.command

/-- The paths a command looks at besides that of its settings, which have to be known. -/
def neededPaths (files : FileSystem) (i : Invocation) : List String :=
  match (Session.readSettings files i.config).run.run [] with
  | (.ok settings, _) => i.command.neededPaths settings
  | (.error _, _) => []

end Invocation

end SborSchema
