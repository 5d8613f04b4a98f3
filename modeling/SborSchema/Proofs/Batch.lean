/-
# Parsing in chunks is parsing one by one

The loop over chunks keeps a running offset and records the outcomes of each
chunk after those before; it may stop in the middle of one. Here it is shown to make of the trees
what one reading after the other makes of them (`Batch.parse_eq_sequential`):
the outputs and the errors stand under the places of their trees, in order, and
neither the size of the chunks nor the number of workers matters.

Key definitions: `Batch.outcomes`, `Batch.outputs`, `Batch.refusals`, `Batch.Lists`,
`Batch.sequential`.
Key theorems: `Batch.Tally.recordAll_eq_after`, `Batch.runChunks_eq_recordAll`,
`Batch.lists_outcomes`, `Batch.parse_eq_sequential`.
-/
import Mathlib.Data.List.Range
import SborSchema.Batch
import SborSchema.Proofs.Outcome
import SborSchema.Proofs.Tree.Depth
import SborSchema.Schema.Scalar

namespace SborSchema.Batch

variable {α : Type}

/-! ### One reading after the other -/

/-- What comes of each tree, with its place. -/
def outcomes (s : Schema α) (limit : Nat) (trees : List Tree) :
    List (Nat × Except ParseError α) :=
  trees.mapIdx fun i t => (i, s.runWithin limit t)

/-- What was parsed. -/
def outputs (rs : List (Nat × Except ParseError α)) : List (Nat × α) :=
  rs.filterMap fun r => r.2.toOption.map fun a => (r.1, a)

/-- The error of an outcome, if it is one. -/
def error? : Except ParseError α → Option ParseError
  | .ok _ => none
  | .error e => some e

/-- What was refused. -/
def refusals (rs : List (Nat × Except ParseError α)) : List (Nat × ParseError) :=
  rs.filterMap fun r => (error? r.2).map fun e => (r.1, e)

/-- What the mode makes of the outcomes of so many trees. -/
def settle (mode : ErrorMode) (total : Nat) (rs : List (Nat × Except ParseError α)) :
    Except Failure (Result α) :=
  match mode, refusals rs with
  | .skip, es => .ok ⟨outputs rs, [], es.length, total⟩
  | .collect, es => .ok ⟨outputs rs, es, 0, total⟩
  | .throw, [] => .ok ⟨outputs rs, [], 0, total⟩
  | .throw, (index, error) :: _ => .error ⟨index, error⟩

/-- The trees parsed one after the other. -/
def sequential (s : Schema α) (mode : ErrorMode) (limit : Nat) (trees : List Tree) :
    Except Failure (Result α) :=
  settle mode trees.length (outcomes s limit trees)

/-- The lists have the outputs and the errors of the trees, each once and in order, under
the places of the trees. -/
structure Lists (s : Schema α) (limit : Nat) (trees : List Tree) (values : List (Nat × α))
    (errors : List (Nat × ParseError)) : Prop where
  values_ascending : (values.map (·.1)).Pairwise (· < ·)
  mem_values (i : Nat) (a : α) :
    (i, a) ∈ values ↔ ∃ t, trees[i]? = some t ∧ s.runWithin limit t = .ok a
  errors_ascending : (errors.map (·.1)).Pairwise (· < ·)
  mem_errors (i : Nat) (e : ParseError) :
    (i, e) ∈ errors ↔ ∃ t, trees[i]? = some t ∧ s.runWithin limit t = .error e
  length : values.length + errors.length = trees.length

/-! ### Recording -/

/-- What the mode makes of outcomes after those that were recorded before. -/
def Tally.after (mode : ErrorMode) (t : Tally α) (rs : List (Nat × Except ParseError α)) :
    Except Failure (Tally α) :=
  match mode, refusals rs with
  | .skip, es => .ok ⟨t.values ++ outputs rs, t.errors, t.skipped + es.length⟩
  | .collect, es => .ok ⟨t.values ++ outputs rs, t.errors ++ es, t.skipped⟩
  | .throw, [] => .ok ⟨t.values ++ outputs rs, t.errors, t.skipped⟩
  | .throw, (index, error) :: _ => .error ⟨index, error⟩

/-- Records outcomes one after the other. -/
def Tally.recordAll (mode : ErrorMode) (t : Tally α) (rs : List (Nat × Except ParseError α)) :
    Except Failure (Tally α) :=
  rs.foldlM (fun t r => t.record mode r.1 r.2) t

theorem Tally.recordAll_append (mode : ErrorMode) (t : Tally α)
    (xs ys : List (Nat × Except ParseError α)) :
    t.recordAll mode (xs ++ ys) = t.recordAll mode xs >>= fun t => t.recordAll mode ys :=
  List.foldlM_append

/-- **Recording outcomes one by one makes of them what the mode makes of all.** -/
theorem Tally.recordAll_eq_after (mode : ErrorMode) (rs : List (Nat × Except ParseError α)) :
    ∀ t : Tally α, t.recordAll mode rs = t.after mode rs := by
  induction rs with
  | nil =>
    intro t
    cases mode <;> simp [recordAll, after, outputs, refusals, pure, Except.pure]
  | cons r rs ih =>
    intro t
    obtain ⟨i, e | a⟩ := r
    · have houtputs : outputs ((i, .error e) :: rs) = outputs rs := rfl
      have hrefusals : refusals ((i, .error e) :: rs) = (i, e) :: refusals rs := rfl
      cases mode with
      | throw => rfl
      | skip =>
        rw [recordAll, List.foldlM_cons, record, ok_bind]
        refine (ih _).trans ?_
        simp only [after, houtputs, hrefusals, List.length_cons]
        rw [Nat.add_assoc, Nat.add_comm 1]
      | collect =>
        rw [recordAll, List.foldlM_cons, record, ok_bind]
        refine (ih _).trans ?_
        simp [after, houtputs, hrefusals]
    · have houtputs : outputs ((i, .ok a) :: rs) = (i, a) :: outputs rs := rfl
      have hrefusals : refusals ((i, .ok a) :: rs) = refusals rs := rfl
      rw [recordAll, List.foldlM_cons, record, ok_bind]
      refine (ih _).trans ?_
      simp only [after, houtputs, hrefusals]
      cases mode with
      | skip | collect => simp
      | throw => cases refusals rs <;> simp

/-- Recorded from the start, outcomes are settled. -/
theorem Tally.after_empty (mode : ErrorMode) (total : Nat)
    (rs : List (Nat × Except ParseError α)) :
    (Tally.empty.after mode rs).map (·.result total) = settle mode total rs := by
  cases mode with
  | skip | collect => simp [after, settle, empty, result, Except.map]
  | throw =>
    simp only [after, settle]
    cases refusals rs <;> simp [empty, result, Except.map]

/-! ### Chunks -/

/-- The chunks put together are the trees. -/
theorem flatten_chunksOf {β : Type} (size : Nat) (ts : List β) :
    (chunksOf size ts).flatten = ts := by
  fun_induction chunksOf size ts with
  | case1 => rfl
  | case2 t ts ih => rw [List.flatten_cons, ih, List.cons_append, List.take_append_drop]

/-- Outcomes with their places after so many trees. -/
def placed (offset : Nat) (rs : List (Nat × Except ParseError α)) :
    List (Nat × Except ParseError α) :=
  rs.map fun r => (offset + r.1, r.2)

/-- The trees after a chunk have the places after it. -/
theorem placed_append (s : Schema α) (limit offset : Nat) (chunk rest : List Tree) :
    placed offset (outcomes s limit (chunk ++ rest)) =
      placed offset (outcomes s limit chunk) ++
        placed (offset + chunk.length) (outcomes s limit rest) := by
  have hplaced : ∀ (offset : Nat) (trees : List Tree), placed offset (outcomes s limit trees) =
      trees.mapIdx fun i t => (offset + i, s.runWithin limit t) := fun offset trees =>
    List.ext_getElem (by simp [placed, outcomes]) (by simp [placed, outcomes])
  rw [hplaced, hplaced, hplaced, List.mapIdx_append]
  simp only [Nat.add_assoc, Nat.add_comm chunk.length]

theorem placed_zero (rs : List (Nat × Except ParseError α)) : placed 0 rs = rs := by
  simp [placed]

/-- A chunk is recorded by the places of its trees among all. -/
theorem Tally.recordChunk_eq (mode : ErrorMode) (offset : Nat) (t : Tally α)
    (chunk : List (Nat × Except ParseError α)) :
    t.recordChunk mode offset chunk = t.recordAll mode (placed offset chunk) := by
  rw [recordChunk, recordAll, placed, List.foldlM_map]

/-- **The loop over chunks records the outcomes of all their trees.** The offset is the place
of the first tree of the next chunk. -/
theorem runChunks_eq_recordAll (s : Schema α) (plan : Plan) (total : Nat) :
    ∀ (chunks : List (List Tree)) (offset : Nat) (t : Tally α),
      (runChunks s plan total chunks offset t).2 =
        t.recordAll plan.mode (placed offset (outcomes s plan.options.maxDepth chunks.flatten))
  | [], _, _ => rfl
  | chunk :: chunks, offset, t => by
    have hchunk : t.recordChunk plan.mode offset (parseChunk s plan.options chunk) =
        t.recordAll plan.mode (placed offset (outcomes s plan.options.maxDepth chunk)) :=
      t.recordChunk_eq plan.mode offset _
    rw [List.flatten_cons, placed_append, Tally.recordAll_append, runChunks, hchunk]
    cases t.recordAll plan.mode (placed offset (outcomes s plan.options.maxDepth chunk)) with
    | error f => rfl
    | ok t => exact runChunks_eq_recordAll s plan total chunks (offset + chunk.length) t

/-- A run makes of the trees what one reading after the other makes of them. -/
theorem run_outcome (s : Schema α) (plan : Plan) (trees : List Tree) :
    (run s plan trees).outcome = sequential s plan.mode plan.options.maxDepth trees := by
  simp only [run, runChunks_eq_recordAll, flatten_chunksOf, placed_zero, Tally.recordAll_eq_after,
    Tally.after_empty, sequential]

/-! ### Places -/

theorem mem_outcomes {s : Schema α} {limit : Nat} {trees : List Tree} {i : Nat}
    {x : Except ParseError α} :
    (i, x) ∈ outcomes s limit trees ↔ ∃ t, trees[i]? = some t ∧ s.runWithin limit t = x := by
  simp only [outcomes, List.mem_mapIdx, Prod.mk.injEq, List.getElem?_eq_some_iff]
  constructor
  · rintro ⟨i, hi, rfl, rfl⟩
    exact ⟨trees[i], ⟨hi, rfl⟩, rfl⟩
  · rintro ⟨t, ⟨hi, rfl⟩, rfl⟩
    exact ⟨i, hi, rfl, rfl⟩

theorem error?_eq_some {x : Except ParseError α} {e : ParseError} :
    error? x = some e ↔ x = .error e := by
  cases x <;> simp [error?]

/-- Whatever is kept of the outcomes stands in the order of their places. -/
theorem ascending_filterMap {β : Type} (s : Schema α) (limit : Nat) (trees : List Tree)
    (f : Except ParseError α → Option β) :
    (((outcomes s limit trees).filterMap fun r => (f r.2).map fun b => (r.1, b)).map
      (·.1)).Pairwise (· < ·) := by
  have hplaces : (outcomes s limit trees).Pairwise fun r r' => r.1 < r'.1 := by
    refine List.pairwise_iff_getElem.mpr fun i j hi hj hij => ?_
    simpa only [outcomes, List.getElem_mapIdx] using hij
  rw [List.pairwise_map, List.pairwise_filterMap]
  refine hplaces.imp fun {r r'} hlt b hb b' hb' => ?_
  obtain ⟨_, -, rfl⟩ := Option.map_eq_some_iff.mp hb
  obtain ⟨_, -, rfl⟩ := Option.map_eq_some_iff.mp hb'
  exact hlt

/-- Every outcome is an output or an error. -/
theorem length_outputs_add_refusals (rs : List (Nat × Except ParseError α)) :
    (outputs rs).length + (refusals rs).length = rs.length := by
  induction rs with
  | nil => rfl
  | cons r rs ih =>
    obtain ⟨i, e | a⟩ := r
    · change (outputs rs).length + ((refusals rs).length + 1) = rs.length + 1
      omega
    · change (outputs rs).length + 1 + (refusals rs).length = rs.length + 1
      omega

/-- **The outputs and the errors are those of the trees**, each under the place of its tree. -/
theorem lists_outcomes (s : Schema α) (limit : Nat) (trees : List Tree) :
    Lists s limit trees (outputs (outcomes s limit trees)) (refusals (outcomes s limit trees)) where
  values_ascending := ascending_filterMap s limit trees Except.toOption
  mem_values i a := by
    rw [← mem_outcomes, outputs, List.mem_filterMap]
    constructor
    · rintro ⟨⟨j, x⟩, hr, hx⟩
      obtain ⟨b, hb, hab⟩ := Option.map_eq_some_iff.mp hx
      obtain ⟨rfl, rfl⟩ := Prod.mk.inj hab
      obtain rfl : x = .ok b := by
        cases x with
        | ok c => exact congrArg _ (Option.some.inj hb)
        | error e => cases hb
      exact hr
    · exact fun hr => ⟨_, hr, rfl⟩
  errors_ascending := ascending_filterMap s limit trees error?
  mem_errors i e := by
    rw [← mem_outcomes, refusals, List.mem_filterMap]
    constructor
    · rintro ⟨⟨j, x⟩, hr, hx⟩
      obtain ⟨e', he, heq⟩ := Option.map_eq_some_iff.mp hx
      obtain ⟨rfl, rfl⟩ := Prod.mk.inj heq
      exact error?_eq_some.mp he ▸ hr
    · exact fun hr => ⟨_, hr, rfl⟩
  length := by rw [length_outputs_add_refusals, outcomes, List.length_mapIdx]

/-- On success, everything is accounted for. -/
theorem sequential_total {s : Schema α} {mode : ErrorMode} {limit : Nat} {trees : List Tree}
    {result : Result α} (h : sequential s mode limit trees = .ok result) :
    result.total = trees.length ∧
      result.values.length + result.errors.length + result.skipped = result.total := by
  have hlength := (lists_outcomes s limit trees).length
  simp only [sequential, settle] at h
  split at h
  · obtain rfl := Except.ok.inj h
    exact ⟨rfl, hlength⟩
  · obtain rfl := Except.ok.inj h
    exact ⟨rfl, hlength⟩
  · next hnone =>
    obtain rfl := Except.ok.inj h
    rw [hnone] at hlength
    exact ⟨rfl, hlength⟩
  · cases h

/-! ### Pools -/

/-- With its workers at hand, a parse is a run. -/
theorem job_of_pool {pool : Nat → Except String Unit} (plan : Plan)
    (hpool : plan.workers = 0 ∨ pool plan.workers = .ok ()) (s : Schema α) (trees : List Tree) :
    job pool s plan trees = (run s plan trees).job := by
  rw [job]
  by_cases hworkers : plan.workers = 0
  · rw [if_pos hworkers]
  · rw [if_neg hworkers, hpool.resolve_left hworkers]

theorem parse_of_pool {pool : Nat → Except String Unit} (plan : Plan)
    (hpool : plan.workers = 0 ∨ pool plan.workers = .ok ()) (s : Schema α) (trees : List Tree) :
    parse pool s plan trees = (run s plan trees).outcome.mapError .item := by
  rw [parse, job_of_pool plan hpool, Run.job]

/-- Without its workers there is no run. -/
theorem job_of_noPool {pool : Nat → Except String Unit} {plan : Plan} {reason : String}
    (hworkers : plan.workers ≠ 0) (hpool : pool plan.workers = .error reason) (s : Schema α)
    (trees : List Tree) : job pool s plan trees = ⟨[], .error (.noPool reason)⟩ := by
  rw [job, if_neg hworkers, hpool]

/-- **Parsing in chunks is parsing one by one.** If the workers can be had, the outcome is
what the mode makes of the outcomes of the single trees: the outputs and the errors stand
under the places of their trees in ascending order, so the refused tree that ends a parse is
the first; a result accounts for every tree; and other chunks and other workers change
nothing. -/
theorem parse_eq_sequential (pool : Nat → Except String Unit) (s : Schema α) (plan : Plan)
    (trees : List Tree) (hpool : plan.workers = 0 ∨ pool plan.workers = .ok ()) :
    parse pool s plan trees =
      (sequential s plan.mode plan.options.maxDepth trees).mapError .item ∧
    Lists s plan.options.maxDepth trees (outputs (outcomes s plan.options.maxDepth trees))
      (refusals (outcomes s plan.options.maxDepth trees)) ∧
    (∀ result, parse pool s plan trees = .ok result → result.total = trees.length ∧
      result.values.length + result.errors.length + result.skipped = result.total) ∧
    ∀ workers chunkSize, workers = 0 ∨ pool workers = .ok () →
      parse pool s { plan with workers, chunkSize } trees = parse pool s plan trees := by
  have hparse := (parse_of_pool plan hpool s trees).trans
    (congrArg (Except.mapError Stop.item) (run_outcome s plan trees))
  refine ⟨hparse, lists_outcomes s _ trees, fun result h => ?_, fun workers chunkSize h => ?_⟩
  · rw [hparse] at h
    cases hseq : sequential s plan.mode plan.options.maxDepth trees with
    | error f =>
      rw [hseq] at h
      cases h
    | ok r =>
      rw [hseq] at h
      obtain rfl : r = result := Except.ok.inj h
      exact sequential_total hseq
  · rw [hparse, parse_of_pool { plan with workers, chunkSize } h, run_outcome]

/-- Two workers that take two trees at a time stop at the third of three trees. -/
theorem parse_eq_sequential_two_workers :
    let pool : Nat → Except String Unit := fun n => if n ≤ 4 then .ok () else .error "too many"
    let plan : Plan := ⟨2, 2, .throw, .default⟩
    let text : Tree := .leaf {} (.string "x")
    pool plan.workers = .ok () ∧
      parse pool Schema.bool plan [.leaf {} (.bool true), .leaf {} (.bool false), text] =
        .error (.item ⟨2, wrongKind (.single .bool) text .root⟩) := by
  intro pool plan text
  have hpool : pool plan.workers = .ok () := rfl
  have hdepth : ∀ (l : Labels) (c : Leaf), (Tree.leaf l c).depth = 1 := fun l c => by
    rw [Tree.depth_eq_height, Tree.height]
  have hrun : ∀ (l : Labels) (c : Leaf),
      Schema.bool.runWithin 64 (.leaf l c) = Schema.bool.run (.leaf l c) := fun l c => by
    rw [Schema.runWithin, hdepth, if_neg (by decide)]
  have houtcomes : outcomes Schema.bool 64 [.leaf {} (.bool true), .leaf {} (.bool false), text] =
      [(0, .ok true), (1, .ok false), (2, .error (wrongKind (.single .bool) text .root))] := by
    simp only [outcomes, List.mapIdx_cons, List.mapIdx_nil, text, hrun]
    rfl
  refine ⟨hpool, (parse_eq_sequential pool Schema.bool plan _ (.inr hpool)).1.trans ?_⟩
  change Except.mapError Stop.item (settle .throw 3 (outcomes Schema.bool 64 _)) = _
  rw [houtcomes]
  rfl

end SborSchema.Batch
