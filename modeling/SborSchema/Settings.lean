/-
# Settings of the command line

The settings say what is logged, how deep trees may be, and where schemas are
looked for. Levels are kept as they are written. Everything has a default.

Key definitions: `LogSettings`, `LogSettings.directives`, `Settings`, `Settings.toJson`.
-/
import SborSchema.Options

namespace SborSchema

/-- What is logged. -/
structure LogSettings where
  level : String
  /-- The levels of components, by ascending name. -/
  components : List (String × String)
  /-- Whether log lines are written as JSON. -/
  json : Bool
deriving DecidableEq, Repr

namespace LogSettings

/-- The log settings unless others are given. -/
def default : LogSettings := ⟨"info", [], false⟩

/-- The name of a component with lines in place of its dashes. -/
def moduleName (component : String) : String :=
  String.ofList (component.toList.map fun c => if c = '-' then '_' else c)

/-- The level and those of the components, with commas between them. -/
def directives (l : LogSettings) : String :=
  l.level ++ String.join (l.components.map fun c => "," ++ moduleName c.1 ++ "=" ++ c.2)

/-- Log settings as JSON. -/
def toJson (l : LogSettings) : Json :=
  .object [("level", .string l.level),
    ("components", .object (l.components.map fun c => (c.1, .string c.2))),
    ("json", .bool l.json)]

end LogSettings

/-- The settings of the command line. -/
structure Settings where
  log : LogSettings
  parse : ParseOptions
  /-- Where schemas are looked for unless a command says so. -/
  schemaDirectory : String
deriving DecidableEq, Repr

namespace Settings

/-- The settings unless others are given. -/
def default : Settings := ⟨.default, .default, "./schemas"⟩

/-- Settings as JSON. -/
def toJson (s : Settings) : Json :=
  .object [("log", s.log.toJson), ("parse", s.parse.toJson),
    ("schema_dir", .string s.schemaDirectory)]

end Settings

end SborSchema
