/-
# Registries of definitions

A registry keeps definitions by name and version, and for each name its
versions in ascending order. A definition once stored stays: another one of the
same name and version is refused. Without a version, a name stands for its
highest version that is not deprecated.

Key definitions: `Registry`, `Registry.add`, `Registry.get?`, `Registry.history`,
`Registry.names`, `Registry.latest`.
-/
import SborSchema.Definition
import SborSchema.Table

namespace SborSchema

/-- What a definition is stored under. -/
def Definition.key (d : Definition) : String × Nat := (d.name, d.version)

/-- Definitions by name and version. -/
structure Registry where
  /-- The definitions. -/
  stored : Table (String × Nat) Definition
  /-- The versions of each name, ascending. -/
  versions : Table String (List Nat)

/-- A definition of this name and version is stored. -/
structure Registry.Duplicate where
  name : String
  version : Nat
deriving DecidableEq, Repr

/-- The wording of a refused definition. -/
def Registry.Duplicate.message (d : Registry.Duplicate) : String :=
  "Schema '" ++ d.name ++ "' v" ++ Digits.text d.version ++ " already exists"

namespace Registry

/-- The registry without definitions. -/
def empty : Registry := ⟨.empty, .empty⟩

/-- The number of definitions. -/
def size (r : Registry) : Nat := r.stored.size

/-- Whether there is no definition. -/
def isEmpty (r : Registry) : Bool := r.size == 0

/-- The definition of a name and version. -/
def find? (r : Registry) (name : String) (version : Nat) : Option Definition :=
  r.stored.get? (name, version)

/-- Puts a number among ascending ones, unless it is there. -/
def insertVersion (v : Nat) (vs : List Nat) : List Nat :=
  if vs.contains v then vs else (vs ++ [v]).mergeSort fun a b => decide (a ≤ b)

/-- Puts a definition under its name and version, and its version under its name. -/
def insert (d : Definition) (r : Registry) : Registry where
  stored := r.stored.alter d.key fun _ => d
  versions := r.versions.alter d.name fun vs => insertVersion d.version (vs.getD [])

/-- Stores a definition, unless there is one of its name and version. -/
def add (d : Definition) (r : Registry) : Except Duplicate Registry :=
  match r.find? d.name d.version with
  | some _ => .error ⟨d.name, d.version⟩
  | none => .ok (r.insert d)

/-- The versions of a name, ascending. -/
def versionsOf (r : Registry) (name : String) : List Nat := (r.versions.get? name).getD []

/-- The definitions of a name, by ascending version. -/
def history (r : Registry) (name : String) : List Definition :=
  (r.versionsOf name).filterMap (r.find? name)

/-- The highest version of a name that is not deprecated. -/
def latestVersion? (r : Registry) (name : String) : Option Nat :=
  (r.versionsOf name).reverse.find? fun v => (r.find? name v).any fun d => !d.deprecated

/-- The definition of a name: of the given version, or of the latest. -/
def get? (r : Registry) (name : String) (version : Option Nat) : Option Definition :=
  match version with
  | some v => r.find? name v
  | none => (r.latestVersion? name).bind (r.find? name)

/-- The names in ascending order. -/
def names (r : Registry) : List String := r.versions.keys.mergeSort fun a b => decide (a ≤ b)

/-- The latest definition of each name that has one, by name. -/
def latest (r : Registry) : List Definition :=
  (r.versions.keys.filterMap fun name => r.get? name none).mergeSort
    fun a b => decide (a.name ≤ b.name)

end Registry

end SborSchema
