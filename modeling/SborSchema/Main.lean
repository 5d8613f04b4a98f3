/-
# The program

The command of the arguments is run on a snapshot of the files it looks at. Its
lines are then written in order, and the time it took where there is a place
for it.

Key definitions: `main`.
-/
import SborSchema.Command.Run

namespace SborSchema.Program

/-- The number and the words of a fault that the operating system reports. -/
def systemFault? : IO.Error → Option (UInt32 × String)
  | .noFileOrDirectory _ code words | .interrupted _ code words | .alreadyExists _ code words
  | .invalidArgument _ code words | .permissionDenied _ code words
  | .resourceExhausted _ code words | .inappropriateType _ code words
  | .noSuchThing _ code words | .otherError code words | .resourceBusy code words
  | .resourceVanished code words | .unsupportedOperation code words | .hardwareFault code words
  | .unsatisfiedConstraints code words | .illegalOperation code words
  | .protocolError code words | .timeExpired code words => some (code, words)
  | .unexpectedEof | .userError _ => none

/-- Why something in the file system is out of reach. -/
def faultOf (e : IO.Error) : FileTree.Fault :=
  match systemFault? e with
  | some (2, _) => .notFound
  | some (20, _) => .notDirectory
  | some (21, _) => .isDirectory
  | some (code, words) => .system (words ++ " (os error " ++ toString code ++ ")")
  | none => .system e.toString

/-- What a path leads to, with all below it and what keeps from it. A circle of links ends where
the operating system gives up. -/
partial def snapshot (path : String) : IO FileTree := do
  let place := (IO.FS.DirEntry.mk path "").root
  let isDirectory ← place.isDir
  try
    if isDirectory then
      let trees ← (← place.readDir).toList.mapM fun e => do
        let t ← snapshot e.path.toString
        return (e.fileName, if ← isLink e then .link t else t)
      return .directory trees
    else
      match String.fromUTF8? (← IO.FS.readBinFile place) with
      | some text => return .text text
      | none => return .binary
  catch e => return .closed isDirectory (faultOf e)
where
  /-- Whether an entry is a link; one that cannot be looked at counts as none. -/
  isLink (e : IO.FS.DirEntry) : IO Bool := do
    try
      return (← e.path.symlinkMetadata).type matches .symlink
    catch _ => return false

/-- What a path leads to, as far as the file system tells. -/
def look (path : String) : IO (String × Except FileTree.Fault FileTree) := do
  try
    let _ ← (IO.FS.DirEntry.mk path "").root.metadata
    return (path, .ok (← snapshot path))
  catch e => return (path, .error (faultOf e))

/-- The file system that knows some paths. -/
def fileSystemOf (known : List (String × Except FileTree.Fault FileTree)) : FileSystem :=
  fun path => match known.find? (·.1 == path) with
  | some (_, found) => found
  | none => .error .notFound

/-- Writes a line, or the time that values took. -/
def write (nanoseconds : Nat) : OutputLine → IO Unit
  | .standard text => IO.println text
  | .error text => IO.eprintln text
  | .timing values => (timingLines values nanoseconds).forM IO.println

/-- Runs a command and gives the code with which the program ends. -/
def run (i : Invocation) : IO UInt32 := do
  let settings ← i.config.toList.mapM look
  let known ← (i.neededPaths (fileSystemOf settings)).mapM look
  let start ← IO.monoNanosNow
  let t ← IO.lazyPure fun _ => i.run (fileSystemOf (settings ++ known))
  let stop ← IO.monoNanosNow
  t.lines.forM (write (stop - start))
  match t.failure with
  | some report => IO.eprintln ("Error: " ++ report.text)
  | none => pure ()
  return t.exitCode.toUInt32

end SborSchema.Program

/-- Runs the command that the arguments ask for. -/
def main (arguments : List String) : IO UInt32 := do
  match SborSchema.Invocation.ofArguments arguments with
  | .ok i => SborSchema.Program.run i
  | .error stop =>
    if stop.exitCode = 0 then IO.println stop.message else IO.eprintln stop.message
    return stop.exitCode.toUInt32
