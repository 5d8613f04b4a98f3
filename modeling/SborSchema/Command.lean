/-
# Commands

What the program can be asked to do, and what a command leaves behind: the
lines it writes to its two outputs in order, and a report if it fails. A report
is a message with the causes behind it, from the outermost on.

Key definitions: `Command`, `Invocation`, `Report`, `Report.text`, `Session`, `Transcript`.
-/
import SborSchema.Digits

namespace SborSchema

/-- Something the program can be asked to do. -/
inductive Command
  /-- Reads a file of definitions and shows them. -/
  | parse (file : String)
  /-- Parses a tree with a schema. -/
  | check (schema : String) (version : Option Nat) (value : String)
      (schemaDirectory : Option String) (json : Bool)
  /-- Checks the fixtures of a directory. -/
  | test (fixtures : String) (schemaDirectory : Option String) (schema : Option String)
  /-- Parses a tree many times. -/
  | bench (schema value : String) (schemaDirectory : Option String) (iterations workers : Nat)
  /-- Lists the schemas of a directory. -/
  | listSchemas (directory : Option String)
  /-- Reads all files of definitions of a directory. -/
  | validateSchemas (directory : Option String)
  /-- Says what the program can do. -/
  | info
deriving DecidableEq, Repr

/-- A command with what is said beside it. -/
structure Invocation where
  verbose : Bool
  /-- The file with the settings. -/
  config : Option String
  command : Command
deriving DecidableEq, Repr

/-- Why a command fails. -/
structure Report where
  message : String
  /-- What is behind the message, from the outermost on. -/
  causes : List String
deriving DecidableEq, Repr

namespace Report

/-- A message without causes. -/
def plain (message : String) : Report := ⟨message, []⟩

/-- A number to the right of a field five characters wide. -/
def numberText (n : Nat) : List Char :=
  List.replicate (5 - (Digits.ofNat n).length) ' ' ++ Digits.ofNat n

/-- A text whose further lines start with blanks. -/
def indent (width : Nat) (cs : List Char) : List Char :=
  cs.flatMap fun c => if c = '\n' then '\n' :: List.replicate width ' ' else [c]

/-- A cause among several, by its number. -/
def numberedCause (n : Nat) (cause : String) : List Char :=
  numberText n ++ [':', ' '] ++ indent 7 cause.toList

/-- The causes of a report, each on lines of its own. -/
def causeLines : List String → List (List Char)
  | [cause] => [List.replicate 4 ' ' ++ indent 4 cause.toList]
  | causes => causes.mapIdx numberedCause

/-- The written form of a report. -/
def text (r : Report) : String :=
  if r.causes.isEmpty then r.message
  else
    let lines := (causeLines r.causes).flatMap ('\n' :: ·)
    r.message ++ String.ofList ("\n\nCaused by:".toList ++ lines)

end Report

/-- A line on one of the two outputs. -/
inductive OutputLine
  | standard (text : String)
  | error (text : String)
  /-- A place for the time that a number of values took, which only a real run knows. -/
  | timing (values : Nat)
deriving DecidableEq, Repr

/-- A number with `places` digits after the point. -/
def decimalText (places n : Nat) : String :=
  let unit := Nat.pow 10 places
  String.ofList (Digits.ofNat (n / unit) ++
    if places = 0 then [] else '.' :: Digits.padded places (n % unit))

/-- A quotient rounded to a whole number; a half goes up. -/
def roundedQuotient (n d : Nat) : Nat := (2 * n + d) / (2 * d)

/-- The lines about time for a number of values that took some nanoseconds. -/
def timingLines (values nanoseconds : Nat) : List String :=
  let time := max nanoseconds 1
  ["  Duration:   " ++ decimalText 3 (roundedQuotient time 1000000) ++ "s",
    "  Throughput: " ++ decimalText 0 (roundedQuotient (values * 1000000000) time) ++
      " values/sec"]

/-- A command while it runs: the lines so far, latest first, and a report when it fails. -/
abbrev Session := ExceptT Report (StateM (List OutputLine))

namespace Session

/-- Writes a line. -/
def say (text : String) : Session Unit := modify (.standard text :: ·)

/-- Leaves a place for the time that values took. -/
def sayTiming (values : Nat) : Session Unit := modify (.timing values :: ·)

/-- Writes a line about an error. -/
def complain (text : String) : Session Unit := modify (.error text :: ·)

/-- Ends the command with a message. -/
def fail {α : Type} (message : String) : Session α := throw (.plain message)

/-- The result of a step, or a report of what failed. -/
def orReport {α ε : Type} (report : ε → Report) : Except ε α → Session α
  | .ok a => return a
  | .error e => throw (report e)

/-- The result of a step, or a report with a message in front of its causes. -/
def orFail {α ε : Type} (message : String) (causes : ε → List String) (x : Except ε α) :
    Session α :=
  orReport (fun e => ⟨message, causes e⟩) x

end Session

/-- What a command leaves behind. -/
structure Transcript where
  lines : List OutputLine
  failure : Option Report
deriving DecidableEq, Repr

namespace Transcript

/-- What is left behind by a command that ran to its end. -/
def of (s : Session Unit) : Transcript :=
  match s.run.run [] with
  | (.ok (), lines) => ⟨lines.reverse, none⟩
  | (.error report, lines) => ⟨lines.reverse, some report⟩

/-- The text of a list of lines. -/
def joined (lines : List String) : String := String.join (lines.map (· ++ "\n"))

/-- The text on the standard output, without the lines about time. -/
def standardText (t : Transcript) : String :=
  joined (t.lines.filterMap fun
    | .standard text => some text
    | _ => none)

/-- The text on the error output, with the report at its end. -/
def errorText (t : Transcript) : String :=
  joined ((t.lines.filterMap fun
    | .error text => some text
    | _ => none) ++ (t.failure.map fun r => "Error: " ++ r.text).toList)

/-- The code with which the program ends. -/
def exitCode (t : Transcript) : Nat := if t.failure.isSome then 1 else 0

end Transcript

end SborSchema
