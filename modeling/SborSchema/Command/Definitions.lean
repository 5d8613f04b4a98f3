/-
# Commands on definitions

One command shows the definitions of a file. Another lists what a directory
holds, by name and version. A third reads every file of definitions on a walk
through a directory and counts; it goes on after a file that is refused, but
stops at one that cannot be read.

Key definitions: `Session.showDefinitions`, `Session.listSchemas`, `Session.validateSchemas`.
-/
import SborSchema.Command
import SborSchema.Json.Writer
import SborSchema.Registry.Loading

namespace SborSchema

/-- The causes of a fault of the file system. -/
def FileTree.Fault.causes (f : FileTree.Fault) : List String := [f.message]

/-- The causes of a refused text of definitions. -/
def DefinitionFault.causes (f : DefinitionFault) : List String :=
  [(Registry.Fault.definition none f).message]

/-- The causes of a fault in loading: one of the file system stands behind it. -/
def Registry.Fault.causes (f : Registry.Fault) : List String :=
  f.message :: f.fileMessage?.toList

/-- A path between apostrophes. -/
def quotedPath (path : String) : String := "'" ++ path ++ "'"

namespace Session

/-- A line that is left out where there is nothing to say. -/
def sayIfPresent (lead : String) : Option String → Session Unit
  | some text => say (lead ++ text)
  | none => return ()

/-- Shows one definition. -/
def showDefinition (verbose : Bool) (d : Definition) : Session Unit := do
  say ("✓ Schema '" ++ d.name ++ "' v" ++ Digits.text d.version ++ " parsed successfully" ++
    if d.deprecated then " [deprecated]" else "")
  sayIfPresent "  Description: " d.description
  sayIfPresent "  Blueprint:   " d.origin.blueprint
  sayIfPresent "  Category:    " d.origin.category
  say ("  Type:        " ++ d.type.text)
  if verbose then say d.toJson.indented

/-- Shows the definitions of a file. -/
def showDefinitions (files : FileSystem) (verbose : Bool) (path : String) : Session Unit := do
  let text ← orFail ("read definition file " ++ quotedPath path) FileTree.Fault.causes
    (files.readText path)
  let definitions ← orFail ("parse " ++ quotedPath path) DefinitionFault.causes
    (Definition.allOfText text)
  if definitions.isEmpty then fail (quotedPath path ++ " contains no schema definitions")
  definitions.forM (showDefinition verbose)

/-- The registry of the definitions below a directory, with their number. -/
def loadDirectory (files : FileSystem) (directory : String) : Session (Nat × Registry) := do
  let (outcome, registry) := (Registry.loadDirectory files directory).run.run .empty
  let count ← orFail ("load schemas from " ++ quotedPath directory) Registry.Fault.causes outcome
  return (count, registry)

/-- The registry of a directory that has to hold definitions. -/
def loadRegistry (files : FileSystem) (directory : String) : Session Registry := do
  let (count, registry) ← loadDirectory files directory
  if count = 0 then fail ("no schemas found in " ++ quotedPath directory)
  return registry

/-- A version in a list. -/
def versionText (d : Definition) : String :=
  "v" ++ Digits.text d.version ++ if d.deprecated then " (deprecated)" else ""

/-- A text with blanks after it up to a width. -/
def padded (width : Nat) (text : String) : String :=
  text ++ String.ofList (List.replicate (width - text.length) ' ')

/-- Lists the names of a directory with their versions. -/
def listSchemas (files : FileSystem) (directory : String) : Session Unit := do
  let (count, registry) ← loadDirectory files directory
  say ("Loaded " ++ Digits.text count ++ " definitions from " ++ quotedPath directory)
  registry.names.forM fun name =>
    let versions := Text.listed ((registry.history name).map versionText)
    say ("  " ++ padded 30 name ++ " " ++ versions)

/-- The files of definitions on a walk, by their paths; a directory counts if its name does. Where
the path itself is a link, the walk starts at what it leads to. -/
def definitionPlaces (directory : String) (t : FileTree) : List (String × FileTree) :=
  let isWanted (e : List String × FileTree) : Bool :=
    ((FileTree.nameAt? directory e.1).bind FileTree.extension?).any Registry.endings.contains
  (t.target.walk.filter isWanted).map fun e => (FileTree.placePath directory e.1, e.2)

/-- Reads files of definitions and counts the definitions and the refused files. -/
def validateEach : List (String × FileTree) → Session (Nat × Nat)
  | [] => return (0, 0)
  | (path, file) :: rest => do
    let text ← orFail ("read " ++ quotedPath path) FileTree.Fault.causes file.content
    match Definition.allOfText text with
    | .ok definitions =>
      say ("  ✓ " ++ path ++ " (" ++ Digits.text definitions.length ++ " definitions)")
      let (valid, refused) ← validateEach rest
      return (valid + definitions.length, refused)
    | .error f =>
      complain ("  ✗ " ++ path ++ ": " ++ (Registry.Fault.definition none f).message)
      let (valid, refused) ← validateEach rest
      return (valid, refused + 1)

/-- Reads every file of definitions of a directory. -/
def validateSchemas (files : FileSystem) (directory : String) : Session Unit := do
  let places :=
    match files directory with
    | .ok t => definitionPlaces directory t
    | .error _ => []
  let (valid, refused) ← validateEach places
  say ("\n" ++ Digits.text valid ++ " definitions valid, " ++ Digits.text refused ++
    " files with errors")
  if 0 < refused then fail (Digits.text refused ++ " definition files failed validation")

end Session

end SborSchema
