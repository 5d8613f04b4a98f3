/-
# Loading definitions from files

A file is read as a whole before any of its definitions is stored; the
definitions are then stored in order up to the first that is refused. The
files of a directory are those with one of two endings anywhere below it, in
the order of their places; they are all found before the first is read. What was
stored before a fault stays.

Key definitions: `Registry.Fault`, `Registry.Loader`, `Registry.addAll`,
`Registry.loadFile`, `Registry.definitionFiles`, `Registry.loadDirectory`.
-/
import SborSchema.Definition.Document
import SborSchema.FileTree
import SborSchema.Registry

namespace SborSchema.Registry

/-- Why definitions are not stored. -/
inductive Fault
  | duplicate (d : Duplicate)
  /-- Text that is no definition, with the path of its file if it comes from one. -/
  | definition (path : Option String) (fault : DefinitionFault)
  | file (fault : FileTree.Fault)
  /-- A path that is to be a directory and is none. -/
  | notDirectory (path : String)

namespace Fault

/-- The wording of what a definition at a path is refused for. -/
def located (path : Option String) (message : String) : String :=
  match path with
  | some path => path ++ ": " ++ message
  | none => message

/-- The wording of a fault of the file system, if it is one. -/
def fileMessage? : Fault → Option String
  | file fault => some fault.message
  | notDirectory path => some (path ++ " is not a directory")
  | _ => none

/-- The wording of a fault. -/
def message : Fault → String
  | duplicate d => d.message
  | definition path fault => "Parse error in schema definition: " ++ located path fault.message
  | file fault => "IO error: " ++ fault.message
  | notDirectory path => "IO error: " ++ path ++ " is not a directory"

end Fault

/-- A step that stores definitions; what it stored stays when it fails. -/
abbrev Loader := ExceptT Fault (StateM Registry)

/-- Stores one definition. -/
def store (d : Definition) : Loader Unit := do
  match (← get).add d with
  | .ok r => set r
  | .error e => throw (.duplicate e)

/-- Stores definitions up to the first that is refused. -/
def addAll : List Definition → Loader Unit
  | [] => return ()
  | d :: ds => do
    store d
    addAll ds

/-- Stores the definitions of a file and counts them. -/
def loadDocuments (path : String) (file : Except FileTree.Fault String) : Loader Nat := do
  match file with
  | .error f => throw (.file f)
  | .ok text =>
    match Definition.allOfText text with
    | .error f => throw (.definition (some path) f)
    | .ok definitions =>
      addAll definitions
      return definitions.length

/-- Stores the definitions of a file, of which there has to be one. -/
def loadFile (files : FileSystem) (path : String) : Loader Nat := do
  let count ← loadDocuments path (files.readText path)
  if count = 0 then throw (.definition (some path) .noDefinition) else return count

/-- Stores the definitions of several files and counts them. -/
def loadEach (directory : String) : List (List String × FileTree) → Loader Nat
  | [] => return 0
  | (place, file) :: rest => do
    let count ← loadDocuments (FileTree.placePath directory place) file.content
    let others ← loadEach directory rest
    return count + others

/-- The endings of files with definitions. -/
def endings : List String := ["yaml", "yml"]

/-- The files of definitions below a directory, which has to be one and to be listed as a whole. -/
def definitionFiles (files : FileSystem) (path : String) :
    Except Fault (List (List String × FileTree)) :=
  match files path with
  | .ok t =>
    if t.isDirectory then (FileTree.filesWith endings t).mapError .file
    else .error (.notDirectory path)
  | .error _ => .error (.notDirectory path)

/-- Stores the definitions of all files below a directory and counts them; all files are found
before the first is read. -/
def loadDirectory (files : FileSystem) (path : String) : Loader Nat := do
  match definitionFiles files path with
  | .ok found => loadEach path found
  | .error f => throw f

end SborSchema.Registry
