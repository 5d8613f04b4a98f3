/-
# Files and directories

A file holds text, or bytes that are no text. A directory holds named entries, in
whatever order they are listed. What is there may be out of reach: a file that cannot
be opened, a directory that cannot be listed, or not to its end. A link stands for
what it leads to. A path is looked up from a directory: names with slashes between
them, where `.` stays and `..` goes back up.

Two ways lead through a directory. A search follows links, and fails where a
directory cannot be listed. A walk takes a link for a file, and passes over what
it cannot list.

Key definitions: `FileTree`, `FileTree.Fault`, `FileTree.target`, `FileTree.find`,
`FileTree.content`, `FileTree.extension?`, `FileTree.places`, `FileTree.walk`,
`FileTree.filesWith`, `FileSystem`, `FileSystem.readText`.
-/

namespace SborSchema

/-- Why a file cannot be read, or a directory not be listed. -/
inductive FileTree.Fault
  | notFound
  | notDirectory
  | isDirectory
  | notText
  /-- Anything else that the operating system has to say, in its words. -/
  | system (message : String)
deriving DecidableEq, Repr

/-- What is at a place of the file system. -/
inductive FileTree
  | text (content : String)
  | binary
  /-- A file or a directory that cannot be opened. -/
  | closed (isDirectory : Bool) (fault : FileTree.Fault)
  /-- A directory, with the entries it lists and the fault at which the list breaks off. -/
  | listing (entries : List (String × FileTree)) (fault : Option FileTree.Fault)
  /-- A link, with what it leads to; a closed file stands behind one that leads nowhere. -/
  | link (target : FileTree)
deriving Repr

namespace FileTree

/-- A directory that lists its entries to the end. -/
@[match_pattern] abbrev directory (entries : List (String × FileTree)) : FileTree :=
  listing entries none

/-- The wording of a fault. -/
def Fault.message : Fault → String
  | notFound => "No such file or directory (os error 2)"
  | notDirectory => "Not a directory (os error 20)"
  | isDirectory => "Is a directory (os error 21)"
  | notText => "stream did not contain valid UTF-8"
  | system message => message

/-- What a chain of links leads to. -/
def target : FileTree → FileTree
  | link t => t.target
  | t => t

/-- Whether it is a directory; links are followed. -/
def isDirectory : FileTree → Bool
  | listing _ _ => true
  | closed isDirectory _ => isDirectory
  | link t => t.isDirectory
  | _ => false

/-- The entry of a directory of a given name. -/
def entry? (name : String) (entries : List (String × FileTree)) : Option FileTree :=
  (entries.find? (·.1 == name)).map (·.2)

/-- The names on a path; one that ends with a slash has an empty name at its end. -/
def pathNames (path : String) : List String := path.splitOn "/"

/-- Follows names from a node below the directories `above`, innermost first; what is above the
directory that a link leads to is not known. -/
def follow : List String → FileTree → List FileTree → Except Fault FileTree
  | [], here, _ => .ok here
  | name :: names, here, above =>
    match here with
    | listing entries _ =>
      if name = "" ∨ name = "." then follow names here above
      else if name = ".." then
        match above with
        | parent :: above => follow names parent above
        | [] => .error .notFound
      else match entry? name entries with
        | some (link t) => follow names t.target []
        | some next => follow names next (here :: above)
        | none => .error .notFound
    | closed _ fault => .error fault
    | _ => .error .notDirectory

/-- What a path leads to. -/
def find (root : FileTree) (path : String) : Except Fault FileTree :=
  if path = "" ∨ path.startsWith "/" then .error .notFound
  else follow (pathNames path) root.target []

/-- The text of a file; links are followed. -/
def content : FileTree → Except Fault String
  | text content => .ok content
  | binary => .error .notText
  | closed _ fault => .error fault
  | listing _ _ => .error .isDirectory
  | link t => t.content

/-- The ending of a name after its last point; a point at the start does not count. -/
def extension? (name : String) : Option String :=
  let reversed := name.toList.reverse
  let ending := reversed.takeWhile (· ≠ '.')
  match reversed.drop ending.length with
  | _ :: _ :: _ => if name = ".." then none else some (String.ofList ending.reverse)
  | _ => none

/-- The last name on a path. -/
def lastName? (path : String) : Option String :=
  ((pathNames path).filter fun name => name ≠ "" ∧ name ≠ ".").getLast?

/-- The path of an entry of the directory at a path. -/
def joinPath (directory name : String) : String :=
  if directory.endsWith "/" then directory ++ name else directory ++ "/" ++ name

/-- The path of a place below the directory at a path. -/
def placePath (directory : String) (place : List String) : String := place.foldl joinPath directory

/-- Whether one place comes before another: names are compared one by one. -/
def comesBefore : List String → List String → Bool
  | [], _ => true
  | _ :: _, [] => false
  | a :: as, b :: bs => if a = b then comesBefore as bs else a < b

mutual

/-- Every place in a tree with what is there, a directory before its entries. Links are not
followed, and where a list breaks off there is nothing more. -/
def places : FileTree → List (List String × FileTree)
  | listing entries fault => ([], listing entries fault) :: placesOfEntries entries
  | t => [([], t)]

/-- Every place in the entries of a directory. -/
def placesOfEntries : List (String × FileTree) → List (List String × FileTree)
  | [] => []
  | (name, t) :: rest =>
    t.places.map (fun e => (name :: e.1, e.2)) ++ placesOfEntries rest

end

mutual

/-- The files below a directory whose names have one of the endings, in the order of their
places: each directory puts in order what is found below it. Links are followed, and the
search ends at the first directory that cannot be listed. -/
def filesWith (endings : List String) : FileTree → Except Fault (List (List String × FileTree))
  | listing entries fault => do
    let found ← filesOfEntries endings entries
    match fault with
    | some f => throw f
    | none => return found.mergeSort fun a b => comesBefore a.1 b.1
  | closed true f => throw f
  | link t => filesWith endings t
  | _ => return []

/-- The files with one of the endings among and below the entries of a directory, entry by
entry; directories are searched whatever their names. -/
def filesOfEntries (endings : List String) :
    List (String × FileTree) → Except Fault (List (List String × FileTree))
  | [] => return []
  | (name, t) :: rest => do
    let found ←
      if t.isDirectory then filesWith endings t
      else pure (if (extension? name).any endings.contains then [([], t)] else [])
    let others ← filesOfEntries endings rest
    return found.map (fun e => (name :: e.1, e.2)) ++ others

end

mutual

/-- A walk through a tree: a directory, then its entries by name, each with all below it. Links
are not followed, and where a list breaks off the walk goes on elsewhere. -/
def walk : FileTree → List (List String × FileTree)
  | listing entries fault =>
    ([], listing entries fault) ::
      ((walkEntries entries).mergeSort fun a b => decide (a.1 ≤ b.1)).flatMap (·.2)
  | t => [([], t)]

/-- The walks through the entries of a directory, by their names. -/
def walkEntries : List (String × FileTree) →
    List (String × List (List String × FileTree))
  | [] => []
  | (name, t) :: rest => (name, t.walk.map fun e => (name :: e.1, e.2)) :: walkEntries rest

end

/-- The last name of a place below the file or directory at a path. -/
def nameAt? (path : String) (place : List String) : Option String :=
  match place.getLast? with
  | some name => some name
  | none => lastName? path

end FileTree

/-- What each path leads to. -/
abbrev FileSystem := String → Except FileTree.Fault FileTree

/-- The text of the file at a path. -/
def FileSystem.readText (files : FileSystem) (path : String) : Except FileTree.Fault String := do
  (← files path).content

end SborSchema
