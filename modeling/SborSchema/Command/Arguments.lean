/-
# Arguments

Arguments are options and the names of commands. An option has a long name
after two dashes, and some have a letter after one. A value stands after a
blank, an equals sign or directly after the letter, and may start with a dash
only where it does not stand alone. Two dashes by themselves end the arguments.
Verbosity and settings may be given with any command; where they are given
twice, the innermost counts.

Key definitions: `ArgumentStop`, `Invocation.ofArguments`.
-/
import SborSchema.Command

namespace SborSchema

/-- Why the arguments ask for no command. -/
inductive ArgumentStop
  /-- They ask for help. -/
  | help
  /-- They ask for the version of the program. -/
  | version
  | unexpected (argument : String)
  | repeated (option : String)
  | missingValue (option : String)
  | unwantedValue (option : String)
  | badValue (option value : String)
  | missingOption (option : String)
  | missingCommand
deriving DecidableEq, Repr

/-- The wording of what is said in place of a command. -/
def ArgumentStop.message : ArgumentStop → String
  | help => "Usage: sborcodec [--verbose] [--config <FILE>] " ++
      "<parse|check|test|bench|schemas list|schemas validate|info> [OPTIONS]"
  | version => "sborcodec 0.1.0"
  | unexpected argument => "error: unexpected argument '" ++ argument ++ "' found"
  | repeated option => "error: the argument '--" ++ option ++ "' cannot be used multiple times"
  | missingValue option =>
    "error: a value is required for '--" ++ option ++ "' but none was supplied"
  | unwantedValue option => "error: no value is expected for '--" ++ option ++ "'"
  | badValue option value => "error: invalid value '" ++ value ++ "' for '--" ++ option ++ "'"
  | missingOption option => "error: the required argument '--" ++ option ++ "' was not provided"
  | missingCommand => "error: a command is required but none was provided"

/-- The code with which the program ends in place of a command. -/
def ArgumentStop.exitCode : ArgumentStop → Nat
  | help => 0
  | version => 0
  | _ => 2

/-- An option that a command knows. -/
structure OptionSpec where
  name : String
  letter : Option Char
  takesValue : Bool
deriving DecidableEq, Repr

/-- The options of one command that were given, by name; a flag has no value. -/
abbrev GivenOptions := List (String × Option String)

namespace Arguments

/-- The options every command knows. -/
def sharedSpecs : List OptionSpec :=
  [⟨"verbose", some 'v', false⟩, ⟨"config", none, true⟩, ⟨"help", some 'h', false⟩]

/-- An option with a value and no letter. -/
def valued (name : String) : OptionSpec := ⟨name, none, true⟩

/-- Adds an option that was given, unless it was given before. The flags for help and for
the version of the program stop the reading. -/
def addOption (name : String) (value : Option String) (given : GivenOptions) :
    Except ArgumentStop GivenOptions :=
  match name, value with
  | "help", none => .error .help
  | "version", none => .error .version
  | name, value =>
    if given.any (·.1 == name) then .error (.repeated name) else .ok (given ++ [(name, value)])

/-- Whether an argument can be the value of the option before it. -/
def isValue (argument : String) : Bool :=
  match argument.toList with
  | ['-'] => true
  | '-' :: _ => false
  | _ => true

/-- The value of an option in the arguments after it, and what follows. -/
def nextValue (name : String) : List String → Except ArgumentStop (String × List String)
  | value :: rest => if isValue value then .ok (value, rest) else .error (.missingValue name)
  | [] => .error (.missingValue name)

/-- Reads the letters after one dash; an option with a value takes what is left of them. -/
def readLetters (specs : List OptionSpec) (argument : String) :
    List Char → List String → GivenOptions → Except ArgumentStop (GivenOptions × List String)
  | [], rest, given => .ok (given, rest)
  | c :: cs, rest, given =>
    match specs.find? (·.letter == some c) with
    | none => .error (.unexpected argument)
    | some spec =>
      if spec.takesValue then do
        let (value, rest) ← match cs with
          | [] => nextValue spec.name rest
          | '=' :: value => .ok (String.ofList value, rest)
          | value => .ok (String.ofList value, rest)
        return (← addOption spec.name (some value) given, rest)
      else do
        readLetters specs argument cs rest (← addOption spec.name none given)

/-- Reads the name after two dashes, with its value. -/
def readName (specs : List OptionSpec) (argument : String) (cs : List Char)
    (rest : List String) (given : GivenOptions) :
    Except ArgumentStop (GivenOptions × List String) :=
  let name := String.ofList (cs.takeWhile (· ≠ '='))
  let attached : Option String :=
    match cs.dropWhile (· ≠ '=') with
    | _ :: value => some (String.ofList value)
    | [] => none
  match specs.find? (·.name == name) with
  | none => .error (.unexpected argument)
  | some spec => do
    match spec.takesValue, attached with
    | true, some value => return (← addOption name (some value) given, rest)
    | true, none =>
      let (value, rest) ← nextValue name rest
      return (← addOption name (some value) given, rest)
    | false, some _ => .error (.unwantedValue name)
    | false, none => return (← addOption name none given, rest)

/-- Reads options up to the first argument that is none. Nothing may follow two dashes. -/
def readOptions (specs : List OptionSpec) :
    Nat → List String → GivenOptions → Except ArgumentStop (GivenOptions × List String)
  | fuel + 1, argument :: rest, given =>
    match argument.toList with
    | '-' :: '-' :: [] =>
      match rest with
      | [] => .ok (given, [])
      | next :: _ => .error (.unexpected next)
    | '-' :: '-' :: cs => do
      let (given, rest) ← readName specs argument cs rest given
      readOptions specs fuel rest given
    | '-' :: c :: cs => do
      let (given, rest) ← readLetters specs argument (c :: cs) rest given
      readOptions specs fuel rest given
    | _ => .ok (given, argument :: rest)
  | _, rest, given => .ok (given, rest)

/-- Reads the options of a command, and what follows them. -/
def readLevel (specs : List OptionSpec) (arguments : List String) :
    Except ArgumentStop (GivenOptions × List String) :=
  readOptions (sharedSpecs ++ specs) arguments.length arguments []

/-- Reads the options of a command that has no commands below it. -/
def readLast (specs : List OptionSpec) (arguments : List String) :
    Except ArgumentStop GivenOptions := do
  match ← readLevel specs arguments with
  | (given, []) => return given
  | (_, argument :: _) => .error (.unexpected argument)

/-- Whether a flag was given. -/
def hasFlag (name : String) (given : GivenOptions) : Bool := given.any (·.1 == name)

/-- The value of an option that may be absent. -/
def value? (name : String) (given : GivenOptions) : Option String :=
  (given.find? (·.1 == name)).bind (·.2)

/-- The value of an option that has to be there. -/
def required (name : String) (given : GivenOptions) : Except ArgumentStop String :=
  match value? name given with
  | some value => .ok value
  | none => .error (.missingOption name)

/-- A path, which is not empty. -/
def pathOf (name value : String) : Except ArgumentStop String :=
  if value.isEmpty then .error (.missingValue name) else .ok value

/-- A path that may be absent. -/
def path? (name : String) (given : GivenOptions) : Except ArgumentStop (Option String) :=
  (value? name given).mapM (pathOf name)

/-- A path that has to be there. -/
def requiredPath (name : String) (given : GivenOptions) : Except ArgumentStop String := do
  pathOf name (← required name given)

/-- A natural number below a bound, that a plus sign may precede. -/
def natOf (bound : Nat) (name value : String) : Except ArgumentStop Nat :=
  let digits := match value.toList with
    | '+' :: ds => ds
    | ds => ds
  match (Digits.natValue? digits).filter (· < bound) with
  | some n => .ok n
  | none => .error (.badValue name value)

/-- The bound of numbers of 32 bits. -/
def wordBound : Nat := 1 <<< 32

/-- The bound of numbers of 64 bits. -/
def longBound : Nat := 1 <<< 64

/-- The options of `parse`. -/
def parseCommand (arguments : List String) : Except ArgumentStop (GivenOptions × Command) := do
  let given ← readLast [⟨"file", some 'f', true⟩] arguments
  return (given, .parse (← requiredPath "file" given))

/-- The options of `check`. -/
def checkCommand (arguments : List String) : Except ArgumentStop (GivenOptions × Command) := do
  let given ← readLast [valued "schema", valued "version", valued "value", valued "schema-dir",
    ⟨"json", none, false⟩] arguments
  let version ← (value? "version" given).mapM (natOf wordBound "version")
  return (given, .check (← required "schema" given) version (← requiredPath "value" given)
    (← path? "schema-dir" given) (hasFlag "json" given))

/-- Where fixtures are looked for unless a command says so. -/
def defaultFixtures : String := "./fixtures"

/-- The options of `test`. -/
def testCommand (arguments : List String) : Except ArgumentStop (GivenOptions × Command) := do
  let given ← readLast [valued "fixtures", valued "schema-dir", valued "schema"] arguments
  return (given, .test ((← path? "fixtures" given).getD defaultFixtures)
    (← path? "schema-dir" given) (value? "schema" given))

/-- How often a tree is parsed unless a command says so. -/
def defaultIterations : Nat := 100000

/-- The options of `bench`. -/
def benchCommand (arguments : List String) : Except ArgumentStop (GivenOptions × Command) := do
  let given ← readLast [valued "schema", valued "value", valued "schema-dir", valued "iterations",
    valued "threads"] arguments
  let iterations ← (value? "iterations" given).mapM (natOf longBound "iterations")
  let workers ← (value? "threads" given).mapM (natOf longBound "threads")
  return (given, .bench (← required "schema" given) (← requiredPath "value" given)
    (← path? "schema-dir" given) (iterations.getD defaultIterations) (workers.getD 0))

/-- The commands below `schemas`. -/
def schemasCommand (arguments : List String) : Except ArgumentStop (GivenOptions × Command) := do
  let (outer, rest) ← readLevel [] arguments
  match rest with
  | "list" :: rest =>
    let given ← readLast [valued "dir"] rest
    return (outer ++ given, .listSchemas (← path? "dir" given))
  | "validate" :: rest =>
    let given ← readLast [valued "dir"] rest
    return (outer ++ given, .validateSchemas (← path? "dir" given))
  | argument :: _ => .error (.unexpected argument)
  | [] => .error .missingCommand

/-- The options of `info`. -/
def infoCommand (arguments : List String) : Except ArgumentStop (GivenOptions × Command) := do
  return (← readLast [] arguments, .info)

/-- A command by its name, with its options. -/
def namedCommand (name : String) (arguments : List String) :
    Except ArgumentStop (GivenOptions × Command) :=
  match name with
  | "parse" => parseCommand arguments
  | "check" => checkCommand arguments
  | "test" => testCommand arguments
  | "bench" => benchCommand arguments
  | "schemas" => schemasCommand arguments
  | "info" => infoCommand arguments
  | name => .error (.unexpected name)

end Arguments

open Arguments in
/-- The command that arguments ask for. -/
def Invocation.ofArguments (arguments : List String) : Except ArgumentStop Invocation := do
  let (outer, rest) ← readLevel [⟨"version", some 'V', false⟩] arguments
  match rest with
  | [] => .error .missingCommand
  | name :: rest =>
    let (given, command) ← namedCommand name rest
    let all := outer ++ given
    let config := (all.reverse.find? (·.1 == "config")).bind (·.2)
    return {
      verbose := hasFlag "verbose" all
      config := ← config.mapM (pathOf "config")
      command }

end SborSchema
