/-
# Parsing many trees

Many trees are parsed with one schema, in chunks of a given size and in order.
After each chunk the number of trees so far is reported. What happens to trees
that are refused depends on the mode: they are counted, their errors are kept,
or the first of them ends the run. Trees of a chunk may be parsed at the same
time; their results are taken in order all the same. A plan that asks for
workers has a pool of its own, without which there is no run.

Key definitions: `Batch.Plan`, `Batch.Result`, `Batch.run`, `Batch.Failure.message`,
`Batch.job`, `Batch.parse`.
-/
import SborSchema.Options
import SborSchema.Schema

namespace SborSchema.Batch

variable {α : Type}

/-- How many trees are parsed. -/
structure Plan where
  /-- How many trees may be parsed at the same time; zero leaves it open. -/
  workers : Nat
  /-- The number of trees in a chunk; zero counts as one. -/
  chunkSize : Nat
  mode : ErrorMode
  options : ParseOptions

/-- The plan unless another is given. -/
def Plan.default : Plan where
  workers := 0
  chunkSize := 10000
  mode := .skip
  options := .default

/-- What was made of the trees so far; each output and error has the place of its tree. -/
structure Tally (α : Type) where
  values : Array (Nat × α)
  errors : Array (Nat × ParseError)
  /-- The number of refused trees whose errors are not kept. -/
  skipped : Nat

/-- What is made of no trees. -/
def Tally.empty : Tally α := ⟨#[], #[], 0⟩

/-- What a run makes of its trees. -/
structure Result (α : Type) where
  values : List (Nat × α)
  errors : List (Nat × ParseError)
  skipped : Nat
  /-- The number of trees. -/
  total : Nat

/-- What was made of all trees, which are so many. -/
def Tally.result (t : Tally α) (total : Nat) : Result α :=
  ⟨t.values.toList, t.errors.toList, t.skipped, total⟩

/-- The refused tree that ended a run. -/
structure Failure where
  index : Nat
  error : ParseError
deriving DecidableEq, Repr

/-- The wording of a failure. -/
def Failure.message (f : Failure) : String :=
  "Parse error at index " ++ Digits.text f.index ++ ": " ++ f.error.text

/-- A run: how many of how many trees were done after each chunk, and what came of it. -/
structure Run (α : Type) where
  progress : List (Nat × Nat)
  outcome : Except Failure (Result α)

/-- The trees in chunks of `size + 1`. -/
def chunksOf {β : Type} (size : Nat) : List β → List (List β)
  | [] => []
  | t :: ts => (t :: ts.take size) :: chunksOf size (ts.drop size)
termination_by ts => ts.length
decreasing_by
  simp only [List.length_drop, List.length_cons]
  omega

/-- The outcomes of the trees of a chunk, with their places in it. -/
def parseChunk (s : Schema α) (options : ParseOptions) (chunk : List Tree) :
    List (Nat × Except ParseError α) :=
  chunk.mapIdx fun index t => (index, s.runWithin options.maxDepth t)

/-- Records the outcome of the tree at a place, as the mode says. -/
def Tally.record (mode : ErrorMode) (t : Tally α) (index : Nat) :
    Except ParseError α → Except Failure (Tally α)
  | .ok value => .ok { t with values := t.values.push (index, value) }
  | .error error =>
    match mode with
    | .skip => .ok { t with skipped := t.skipped + 1 }
    | .collect => .ok { t with errors := t.errors.push (index, error) }
    | .throw => .error ⟨index, error⟩

/-- Records the outcomes of a chunk, the first tree of which has the place `offset`. -/
def Tally.recordChunk (mode : ErrorMode) (offset : Nat) (t : Tally α)
    (chunk : List (Nat × Except ParseError α)) : Except Failure (Tally α) :=
  chunk.foldlM (fun t r => t.record mode (offset + r.1) r.2) t

/-- Runs the chunks one after the other; there are `total` trees, `offset` of them before. -/
def runChunks (s : Schema α) (plan : Plan) (total : Nat) :
    List (List Tree) → (offset : Nat) → Tally α →
      List (Nat × Nat) × Except Failure (Tally α)
  | [], _, t => ([], .ok t)
  | chunk :: chunks, offset, t =>
    match t.recordChunk plan.mode offset (parseChunk s plan.options chunk) with
    | .error f => ([], .error f)
    | .ok t =>
      let offset := offset + chunk.length
      let rest := runChunks s plan total chunks offset t
      ((offset, total) :: rest.1, rest.2)

/-- Parses trees with a schema. -/
def run (s : Schema α) (plan : Plan) (trees : List Tree) : Run α :=
  let total := trees.length
  let r := runChunks s plan total (chunksOf (plan.chunkSize - 1) trees) 0 .empty
  { progress := r.1, outcome := r.2.map fun t => t.result total }

/-- Why a parse of many trees has no result. -/
inductive Stop
  /-- The workers that the plan asks for cannot be had. -/
  | noPool (reason : String)
  | item (failure : Failure)

/-- The wording of why there is no result. -/
def Stop.message : Stop → String
  | noPool reason => "Failed to build worker pool: " ++ reason
  | item failure => failure.message

/-- What is behind the message, from the outermost on. -/
def Stop.causes : Stop → List String
  | noPool _ => []
  | item failure => [failure.error.text]

/-- A parse of many trees: what is reported after each chunk, and what comes of it. -/
structure Job (α : Type) where
  progress : List (Nat × Nat)
  outcome : Except Stop (Result α)

/-- A run without a pool of its own to wait for. -/
def Run.job (r : Run α) : Job α := ⟨r.progress, r.outcome.mapError .item⟩

/-- Parses trees with a schema, on workers of its own if the plan asks for some; `pool`
gives so many workers, or the reason why it cannot. Without a pool nothing is reported. -/
def job (pool : Nat → Except String Unit) (s : Schema α) (plan : Plan) (trees : List Tree) :
    Job α :=
  if plan.workers = 0 then (run s plan trees).job
  else
    match pool plan.workers with
    | .error reason => ⟨[], .error (.noPool reason)⟩
    | .ok () => (run s plan trees).job

/-- What comes of parsing trees with a schema. -/
def parse (pool : Nat → Except String Unit) (s : Schema α) (plan : Plan) (trees : List Tree) :
    Except Stop (Result α) :=
  (job pool s plan trees).outcome

end SborSchema.Batch
