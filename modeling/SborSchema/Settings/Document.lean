/-
# Settings in documents

The nodes of a document are read by what the settings want at each place: a
text is the text of any scalar, whatever it would stand for by itself; a truth
value and a number have to be unquoted. A mapping may be given as a scalar that
is not there. Fields that are not known are passed over; those that are may not
come twice, while of a repeated component the last counts.

Key definitions: `Settings.ofNode`, `Settings.ofText`.
-/
import SborSchema.NameOrder
import SborSchema.Settings
import SborSchema.Yaml.Document

namespace SborSchema.Settings

open Yaml

/-- The text of a scalar. -/
def textOf (node : Node) : Builder String := do
  match ← resolve node with
  | .scalar _ text _ => return text
  | _ => throw .content

/-- The text of a scalar that is unquoted, or a literal under the tag `name` of the core. -/
def bareTextOf (name : String) (node : Node) : Builder String := do
  match ← resolve node with
  | .scalar p text style =>
    let isNamed := p.tag = some (.foreign (coreTagLead ++ name))
    if style = .plain ∨ (style = .literal ∧ isNamed) then return text else throw .content
  | _ => throw .content

/-- A truth value. -/
def truthOf (node : Node) : Builder Bool := do
  match parseBool? (← bareTextOf "bool" node).toList with
  | some b => return b
  | none => throw .content

/-- A natural number of 64 bits. -/
def wordOf (node : Node) : Builder Nat := do
  match parseWord? (← bareTextOf "int" node).toList with
  | some n => return n
  | none => throw .content

/-- The entries of a mapping, or of one that is not there. -/
def entriesOf (node : Node) : Builder (List (Node × Node)) := do
  match ← resolve node with
  | .mapping _ entries => return entries
  | .scalar _ "" .plain => return []
  | _ => throw .content

/-- Reads components one after the other. -/
def readComponents : List (Node × Node) → List (String × String) → Builder (List (String × String))
  | [], done => return done
  | (key, value) :: rest, done => do
    let name ← textOf key
    let level ← textOf value
    readComponents rest (NameOrder.put name level done)

/-- Reads a field into its place, unless that is taken. -/
def fill {α : Type} (place : Option α) (value : Builder α) : Builder (Option α) :=
  match place with
  | some _ => throw .duplicateKey
  | none => some <$> value

/-- The fields of log settings as far as they have been read. -/
structure LogFields where
  level : Option String
  components : Option (List (String × String))
  json : Option Bool

/-- Reads the fields of log settings one after the other. -/
def readLogFields : List (Node × Node) → LogFields → Builder LogFields
  | [], f => return f
  | (key, value) :: rest, f => do
    let f ← match ← textOf key with
      | "level" => do pure { f with level := ← fill f.level (textOf value) }
      | "components" => do
        let read := do readComponents (← entriesOf value) []
        pure { f with components := ← fill f.components read }
      | "json" => do pure { f with json := ← fill f.json (truthOf value) }
      | _ => pure f
    readLogFields rest f

/-- Log settings. -/
def logOf (node : Node) : Builder LogSettings := do
  let f ← readLogFields (← entriesOf node) ⟨none, none, none⟩
  let d := LogSettings.default
  return ⟨f.level.getD d.level, f.components.getD d.components, f.json.getD d.json⟩

/-- Reads the fields of parse options one after the other. -/
def readDepth : List (Node × Node) → Option Nat → Builder (Option Nat)
  | [], depth => return depth
  | (key, value) :: rest, depth => do
    let depth ← match ← textOf key with
      | "max_depth" => fill depth (wordOf value)
      | _ => pure depth
    readDepth rest depth

/-- Parse options. -/
def optionsOf (node : Node) : Builder ParseOptions := do
  return ⟨(← readDepth (← entriesOf node) none).getD ParseOptions.defaultDepth⟩

/-- The fields of settings as far as they have been read. -/
structure Fields where
  log : Option LogSettings
  parse : Option ParseOptions
  schemaDirectory : Option String

/-- Reads the fields of settings one after the other. -/
def readFields : List (Node × Node) → Fields → Builder Fields
  | [], f => return f
  | (key, value) :: rest, f => do
    let f ← match ← textOf key with
      | "log" => do pure { f with log := ← fill f.log (logOf value) }
      | "parse" => do pure { f with parse := ← fill f.parse (optionsOf value) }
      | "schema_dir" => do
        pure { f with schemaDirectory := ← fill f.schemaDirectory (textOf value) }
      | _ => pure f
    readFields rest f

/-- The settings that a node describes. -/
def ofNode (node : Node) : Builder Settings := do
  let f ← readFields (← entriesOf node) ⟨none, none, none⟩
  let d := Settings.default
  return ⟨f.log.getD d.log, f.parse.getD d.parse, f.schemaDirectory.getD d.schemaDirectory⟩

/-- The settings of a text that holds at most one document. -/
def ofText (text : String) : Except Fault Settings :=
  match nodesOf text with
  | [] => .ok .default
  | [node] => do
    let root ← node
    ((ofNode root).run (.of root)).run' 0
  | _ => .error .severalDocuments

end SborSchema.Settings
