/-
# What a run reports on its way

A run reports after each chunk how many of its trees are done. The number comes
from a running offset to which the length of each chunk is added, and a refused
tree may end the run in the middle of a chunk. Here the reports are counted
(`Batch.run_progress_eq`): the `k`-th of them is about the first `k` chunks, of
which the last may be shorter; a run that succeeds reports all its chunks, and
one that is ended by a tree those before the chunk of the tree.

Key definitions: `Batch.reports`, `Batch.chunksDone`.
Key theorems: `Batch.Tally.recordAll_eq_error`, `Batch.runChunks_progress`,
`Batch.reports_ascending`, `Batch.mul_lt_of_lt_chunksDone`, `Batch.job_reports`,
`Batch.run_progress_eq`.
-/
import SborSchema.Proofs.Batch

namespace SborSchema.Batch

variable {α β : Type}

/-! ### Where a run ends -/

/-- Only the mode that throws ends the recording of outcomes, at one of them that is an error. -/
theorem Tally.recordAll_eq_error {mode : ErrorMode} {t : Tally α}
    {rs : List (Nat × Except ParseError α)} {f : Failure} (h : t.recordAll mode rs = .error f) :
    mode = .throw ∧ (f.index, .error f.error) ∈ rs := by
  rw [recordAll_eq_after] at h
  cases mode with
  | skip => cases h
  | collect => cases h
  | throw =>
    refine ⟨rfl, ?_⟩
    cases hfirst : refusals rs with
    | nil =>
      simp only [after, hfirst] at h
      cases h
    | cons r es =>
      obtain ⟨i, e⟩ := r
      simp only [after, hfirst] at h
      obtain rfl := Except.error.inj h
      have hmem : (i, e) ∈ refusals rs := by
        rw [hfirst]
        exact List.mem_cons_self
      obtain ⟨⟨j, x⟩, hr, hx⟩ := List.mem_filterMap.mp hmem
      obtain ⟨e', he', heq⟩ := Option.map_eq_some_iff.mp hx
      obtain ⟨rfl, rfl⟩ := Prod.mk.inj heq
      rw [← error?_eq_some.mp he']
      exact hr

/-- Trees after an offset are recorded under places from there on. -/
theorem Tally.recordAll_placed_eq_error {mode : ErrorMode} {t : Tally α} {s : Schema α}
    {limit offset : Nat} {trees : List Tree} {f : Failure}
    (h : t.recordAll mode (placed offset (outcomes s limit trees)) = .error f) :
    mode = .throw ∧ ∃ i u, f.index = offset + i ∧ trees[i]? = some u ∧
      s.runWithin limit u = .error f.error := by
  obtain ⟨hmode, hmem⟩ := recordAll_eq_error h
  obtain ⟨⟨i, x⟩, hr, heq⟩ := List.mem_map.mp hmem
  obtain ⟨hindex, rfl⟩ := Prod.mk.inj heq
  obtain ⟨u, hu, hrun⟩ := mem_outcomes.mp hr
  exact ⟨hmode, i, u, hindex.symm, hu, hrun⟩

/-! ### Reports -/

/-- What is reported after each of the first so many chunks of `size` trees of `total`. -/
def reports (size total chunks : Nat) : List (Nat × Nat) :=
  (List.range' 1 chunks).map fun k => (min (k * size) total, total)

/-- What is reported after so many chunks of `size` trees, the first of which comes after
`offset` trees of `total`. -/
def reportsFrom (size total offset chunks : Nat) : List (Nat × Nat) :=
  (List.range chunks).map fun k => (min (offset + (k + 1) * size) total, total)

theorem reportsFrom_zero (size total offset : Nat) : reportsFrom size total offset 0 = [] := rfl

theorem reportsFrom_start (size total chunks : Nat) :
    reportsFrom size total 0 chunks = reports size total chunks := by
  rw [reportsFrom, reports, List.range'_eq_map_range, List.map_map]
  apply List.map_congr_left
  intro k _
  rw [Function.comp_apply, Nat.zero_add, Nat.add_comm k]

/-- The reports after the first one are those from the second chunk on. -/
theorem reportsFrom_succ (size total offset chunks : Nat) :
    reportsFrom size total offset (chunks + 1) =
      (min (offset + size) total, total) :: reportsFrom size total (offset + size) chunks := by
  have hnext : ∀ k, offset + (k + 1 + 1) * size = offset + size + (k + 1) * size := by
    intro k
    rw [Nat.succ_mul (k + 1)]
    omega
  rw [reportsFrom, reportsFrom, List.range_succ_eq_map, List.map_cons, List.map_map, Nat.zero_add,
    Nat.one_mul]
  congr 1
  apply List.map_congr_left
  intro k _
  rw [Function.comp_apply, Nat.succ_eq_add_one, hnext]

/-- How many chunks of `size` trees are done of those after `offset` trees, of which there are
`left`: all if that succeeds, and else those before the chunk of the tree that ends it. -/
def chunksDone (size offset left : Nat) : Except Failure β → Nat
  | .ok _ => (left + size - 1) / size
  | .error f => (f.index - offset) / size

/-- A tree of the first chunk ends a run before any chunk is done. -/
theorem chunksDone_first {size offset left : Nat} {f : Failure} (hsize : 0 < size)
    (h : f.index < offset + size) :
    chunksDone size offset left (.error f : Except Failure β) = 0 :=
  Nat.div_eq_of_lt (by omega)

/-- So many trees as a chunk holds, or fewer, are one chunk. -/
theorem chunksDone_last {size offset left : Nat} (hleft : 0 < left) (hsize : left ≤ size) (b : β) :
    chunksDone size offset left (.ok b : Except Failure β) = 1 := by
  have hsplit : left + size - 1 = (left - 1) + size := by omega
  rw [chunksDone, hsplit, Nat.add_div_right _ (by omega), Nat.div_eq_of_lt (by omega)]

/-- One chunk is done before those after it. -/
theorem chunksDone_next {size offset left : Nat} (hsize : 0 < size) {x : Except Failure β}
    (hx : ∀ f, x = .error f → offset + size ≤ f.index) :
    chunksDone size offset (left + size) x = chunksDone size (offset + size) left x + 1 := by
  cases x with
  | ok b =>
    have hsplit : left + size + size - 1 = (left + size - 1) + size := by omega
    rw [chunksDone, chunksDone, hsplit, Nat.add_div_right _ hsize]
  | error f =>
    have hindex := hx f rfl
    have hsplit : f.index - offset = f.index - (offset + size) + size := by omega
    rw [chunksDone, chunksDone, hsplit, Nat.add_div_right _ hsize]

theorem chunksDone_map {γ : Type} (size offset left : Nat) (g : β → γ) (x : Except Failure β) :
    chunksDone size offset left (x.map g) = chunksDone size offset left x := by
  cases x <;> rfl

/-! ### The loop over chunks -/

/-- A loop over chunks is ended by one of their trees. -/
theorem runChunks_eq_error {s : Schema α} {plan : Plan} {total offset : Nat}
    {chunks : List (List Tree)} {t : Tally α} {f : Failure}
    (h : (runChunks s plan total chunks offset t).2 = .error f) :
    plan.mode = .throw ∧ ∃ i u, f.index = offset + i ∧ chunks.flatten[i]? = some u ∧
      s.runWithin plan.options.maxDepth u = .error f.error := by
  rw [runChunks_eq_recordAll] at h
  exact Tally.recordAll_placed_eq_error h

/-- A run is ended by one of its trees. -/
theorem run_eq_error {s : Schema α} {plan : Plan} {trees : List Tree} {f : Failure}
    (h : (run s plan trees).outcome = .error f) :
    plan.mode = .throw ∧ ∃ u, trees[f.index]? = some u ∧
      s.runWithin plan.options.maxDepth u = .error f.error := by
  obtain ⟨hmode, i, u, hindex, hu, hrun⟩ := runChunks_eq_error (map_eq_error.mp h)
  rw [flatten_chunksOf] at hu
  rw [Nat.zero_add] at hindex
  exact ⟨hmode, u, hindex ▸ hu, hrun⟩

/-- **The loop over chunks reports each chunk that it is done with.** -/
theorem runChunks_progress (s : Schema α) (plan : Plan) (size total : Nat) (trees : List Tree) :
    ∀ (offset : Nat) (t : Tally α), total = offset + trees.length →
      let r := runChunks s plan total (chunksOf size trees) offset t
      r.1 = reportsFrom (size + 1) total offset
        (chunksDone (size + 1) offset trees.length r.2) := by
  fun_induction chunksOf size trees with
  | case1 =>
    intro offset t _ r
    have hnone : chunksDone (size + 1) offset 0 r.2 = 0 := Nat.div_eq_of_lt (by omega)
    show [] = reportsFrom (size + 1) total offset (chunksDone (size + 1) offset 0 r.2)
    rw [hnone, reportsFrom_zero]
  | case2 u us ih =>
    intro offset t htotal
    have hlength : (u :: us.take size).length = min (size + 1) (us.length + 1) := by
      rw [List.length_cons, List.length_take]
      omega
    rw [List.length_cons] at htotal ⊢
    simp only [runChunks]
    cases hchunk : t.recordChunk plan.mode offset
        (parseChunk s plan.options (u :: us.take size)) with
    | error f =>
      -- The tree that ends the run is one of this chunk, which is not reported.
      rw [Tally.recordChunk_eq] at hchunk
      obtain ⟨-, i, v, hindex, hv, -⟩ := Tally.recordAll_placed_eq_error hchunk
      have hi : i < (u :: us.take size).length := (List.getElem?_eq_some_iff.mp hv).1
      show [] = reportsFrom (size + 1) total offset _
      rw [chunksDone_first (Nat.succ_pos size) (by omega), reportsFrom_zero]
    | ok t' =>
      by_cases hmore : size < us.length
      · -- The chunk is a full one, and the rest begins at the next multiple of its size.
        have hfull : (u :: us.take size).length = size + 1 := by omega
        have hdrop : us.length + 1 = (us.drop size).length + (size + 1) := by
          rw [List.length_drop]
          omega
        have hrest := ih (offset + (size + 1)) t' (by omega)
        simp only [hfull]
        rw [hdrop, chunksDone_next (Nat.succ_pos size), reportsFrom_succ, ← hrest]
        · congr 2
          omega
        · intro f hf
          obtain ⟨-, i, v, hindex, -, -⟩ := runChunks_eq_error hf
          omega
      · have hshort : (u :: us.take size).length = us.length + 1 := by omega
        have hdrop : us.drop size = [] := List.drop_eq_nil_of_le (by omega)
        simp only [hshort, hdrop, chunksOf, runChunks]
        rw [chunksDone_last (by omega) (by omega), reportsFrom_succ, reportsFrom_zero]
        congr 2
        omega

/-! ### What the reports tell -/

section Reports

variable {size total chunks : Nat}

theorem mem_reports {q : Nat × Nat} :
    q ∈ reports size total chunks ↔
      ∃ k, 1 ≤ k ∧ k ≤ chunks ∧ q = (min (k * size) total, total) := by
  rw [reports, List.mem_map]
  constructor
  · rintro ⟨k, hk, rfl⟩
    rw [List.mem_range'_1] at hk
    exact ⟨k, hk.1, by omega, rfl⟩
  · rintro ⟨k, hk, hchunks, rfl⟩
    exact ⟨k, List.mem_range'_1.mpr ⟨hk, by omega⟩, rfl⟩

/-- The reports ascend as long as the chunks before each do not hold all trees. -/
theorem reports_ascending (hsize : 0 < size) (hbefore : ∀ k < chunks, k * size < total) :
    ((reports size total chunks).map (·.1)).Pairwise (· < ·) := by
  rw [reports, List.map_map, List.pairwise_map]
  apply List.Pairwise.imp_of_mem _ List.pairwise_lt_range'
  intro j k _ hk hjk
  rw [List.mem_range'_1] at hk
  have hj : j * size < total := hbefore j (by omega)
  have hjk' : j * size < k * size := Nat.mul_lt_mul_of_pos_right hjk hsize
  show min (j * size) total < min (k * size) total
  omega

/-- If the chunks hold all trees, the last report is about all. -/
theorem getLast?_reports (hpos : 0 < chunks) (hall : total ≤ chunks * size) :
    (reports size total chunks).getLast? = some (total, total) := by
  obtain ⟨k, rfl⟩ : ∃ k, chunks = k + 1 := ⟨chunks - 1, by omega⟩
  have hlast : 1 + 1 * k = k + 1 := by omega
  rw [reports, List.getLast?_map, List.range'_concat, List.getLast?_concat, Option.map_some, hlast,
    Nat.min_eq_right hall]

end Reports

/-- So many chunks are needed for so many trees, and no fewer. -/
theorem lt_ceil_iff {size total k : Nat} (hsize : 0 < size) :
    k < (total + size - 1) / size ↔ k * size < total := by
  rw [← Nat.succ_le_iff, Nat.le_div_iff_mul_le hsize, Nat.succ_mul]
  omega

/-- If all chunks are done and there are trees, the last report is about all of them. -/
theorem getLast?_reports_ceil {size total : Nat} (hsize : 0 < size) (htotal : total ≠ 0) :
    (reports size total ((total + size - 1) / size)).getLast? = some (total, total) := by
  have hfirst : 0 < (total + size - 1) / size := (lt_ceil_iff hsize).mpr (by omega)
  have hlast : ¬(total + size - 1) / size * size < total :=
    fun h => Nat.lt_irrefl _ ((lt_ceil_iff hsize).mpr h)
  exact getLast?_reports hfirst (by omega)

/-- Without trees there is nothing to report. -/
theorem reports_ceil_eq_nil {size total : Nat} (hsize : 0 < size) (htotal : total = 0) :
    reports size total ((total + size - 1) / size) = [] := by
  have hnone : (total + size - 1) / size = 0 := Nat.div_eq_of_lt (by omega)
  rw [hnone]
  rfl

/-- The reports of a run are counted by its outcome. -/
theorem run_progress (s : Schema α) (plan : Plan) (trees : List Tree) {c : Nat}
    (hc : c = max 1 plan.chunkSize) :
    (run s plan trees).progress =
      reports c trees.length (chunksDone c 0 trees.length (run s plan trees).outcome) := by
  have hsize : plan.chunkSize - 1 + 1 = c := by omega
  have hloop : (run s plan trees).progress =
      reportsFrom (plan.chunkSize - 1 + 1) trees.length 0 _ :=
    runChunks_progress s plan _ trees.length trees 0 .empty (Nat.zero_add _).symm
  rw [hloop, hsize, reportsFrom_start]
  simp only [run]
  rw [chunksDone_map]

/-- Before a chunk that a run is done with there are not all trees. -/
theorem mul_lt_of_lt_chunksDone {s : Schema α} {plan : Plan} {trees : List Tree} {c k : Nat}
    (hc : 0 < c) (hk : k < chunksDone c 0 trees.length (run s plan trees).outcome) :
    k * c < trees.length := by
  cases houtcome : (run s plan trees).outcome with
  | ok result =>
    rw [houtcome, chunksDone] at hk
    exact (lt_ceil_iff hc).mp hk
  | error f =>
    rw [houtcome, chunksDone, Nat.sub_zero] at hk
    obtain ⟨-, u, hu, -⟩ := run_eq_error houtcome
    have hindex : f.index < trees.length := (List.getElem?_eq_some_iff.mp hu).1
    have hbefore : k * c ≤ f.index := (Nat.le_div_iff_mul_le hc).mp (Nat.le_of_lt hk)
    omega

/-- A parse makes the reports of the run, and none without its workers. -/
theorem job_reports (pool : Nat → Except String Unit) (s : Schema α) (plan : Plan)
    (trees : List Tree) :
    (plan.workers = 0 ∨ pool plan.workers = .ok () →
      (job pool s plan trees).progress = (run s plan trees).progress ∧
      (job pool s plan trees).outcome = (run s plan trees).outcome.mapError .item) ∧
    ∀ reason, plan.workers ≠ 0 → pool plan.workers = .error reason →
      job pool s plan trees = ⟨[], .error (.noPool reason)⟩ := by
  refine ⟨fun hpool => ?_, fun reason hworkers hpool => job_of_noPool hworkers hpool s trees⟩
  rw [job_of_pool plan hpool]
  exact ⟨rfl, rfl⟩

/-- **A run reports the chunks that it is done with, one after the other.** With `n` trees and
`c` of them in a chunk, where none counts as one, the reports are `(min (k * c) n, n)` for `k` from
1 on: up to the number of chunks if the run succeeds, and up to that of the chunks before the one
of the tree that ends it, which only happens in the mode that throws. So the numbers of done trees
ascend and never exceed that of all trees; the last is that of all trees, if there are any and the
run succeeds; and no report covers the chunk of a tree that ends the run. A parse on workers makes
the reports of the run, whatever their number, and none if the workers cannot be had. -/
theorem run_progress_eq (s : Schema α) (plan : Plan) (trees : List Tree) :
    let n := trees.length
    let c := max 1 plan.chunkSize
    let r := run s plan trees
    (∀ result, r.outcome = .ok result →
      r.progress = reports c n ((n + c - 1) / c) ∧
      (n ≠ 0 → r.progress.getLast? = some (n, n)) ∧ (n = 0 → r.progress = [])) ∧
    (∀ f, r.outcome = .error f →
      plan.mode = .throw ∧
      (∃ u, trees[f.index]? = some u ∧ s.runWithin plan.options.maxDepth u = .error f.error) ∧
      r.progress = reports c n (f.index / c) ∧
      ∀ q ∈ r.progress, q.1 ≤ f.index / c * c) ∧
    (r.progress.map (·.1)).Pairwise (· < ·) ∧
    (∀ q ∈ r.progress, q.1 ≤ n ∧ q.2 = n) ∧
    ∀ pool : Nat → Except String Unit,
      (plan.workers = 0 ∨ pool plan.workers = .ok () →
        (job pool s plan trees).progress = r.progress ∧
        (job pool s plan trees).outcome = r.outcome.mapError .item) ∧
      ∀ reason, plan.workers ≠ 0 → pool plan.workers = .error reason →
        job pool s plan trees = ⟨[], .error (.noPool reason)⟩ := by
  intro n c r
  have hc : 0 < c := by omega
  have hprogress : r.progress = reports c n (chunksDone c 0 n r.outcome) :=
    run_progress s plan trees rfl
  refine ⟨fun result hresult => ?_, fun f hf => ?_, ?_, fun q hq => ?_,
    fun pool => job_reports pool s plan trees⟩
  · have hall : r.progress = reports c n ((n + c - 1) / c) := by
      rw [hprogress, hresult, chunksDone]
    rw [hall]
    exact ⟨rfl, getLast?_reports_ceil hc, reports_ceil_eq_nil hc⟩
  · obtain ⟨hmode, hthrown⟩ := run_eq_error hf
    have hbefore : r.progress = reports c n (f.index / c) := by
      rw [hprogress, hf, chunksDone, Nat.sub_zero]
    refine ⟨hmode, hthrown, hbefore, fun q hq => ?_⟩
    rw [hbefore] at hq
    obtain ⟨k, -, hk, rfl⟩ := mem_reports.mp hq
    exact Nat.le_trans (Nat.min_le_left _ _) (Nat.mul_le_mul_right c hk)
  · rw [hprogress]
    exact reports_ascending hc fun k hk => mul_lt_of_lt_chunksDone hc hk
  · rw [hprogress] at hq
    obtain ⟨k, -, -, rfl⟩ := mem_reports.mp hq
    exact ⟨Nat.min_le_right _ _, rfl⟩

/-- The fourth of five trees ends a run in chunks of two: the first chunk is reported, and the
second, in which that tree is, is not. -/
theorem run_progress_eq_thrown :
    let plan : Plan := ⟨0, 2, .throw, .default⟩
    let flag : Tree := .leaf {} (.bool true)
    let text : Tree := .leaf {} (.string "x")
    let r := run Schema.bool plan [flag, flag, flag, text, flag]
    r.outcome = .error ⟨3, wrongKind (.single .bool) text .root⟩ ∧ r.progress = [(2, 5)] := by
  intro plan flag text r
  have hwithin : ∀ (l : Labels) (content : Leaf),
      Schema.bool.runWithin 64 (.leaf l content) = Schema.bool.run (.leaf l content) := by
    intro l content
    rw [Schema.runWithin, Tree.depth_eq_height, Tree.height, if_neg (by decide)]
  have houtcome : r.outcome = .error ⟨3, wrongKind (.single .bool) text .root⟩ := by
    refine (run_outcome Schema.bool plan _).trans ?_
    show settle .throw 5 (outcomes Schema.bool 64 _) = _
    simp only [outcomes, List.mapIdx_cons, List.mapIdx_nil, flag, text, hwithin]
    rfl
  obtain ⟨-, hthrown, -⟩ := run_progress_eq Schema.bool plan [flag, flag, flag, text, flag]
  obtain ⟨-, -, hprogress, -⟩ := hthrown _ houtcome
  have hchunk : 3 / 2 = 1 := by decide
  have hsize : max 1 plan.chunkSize = 2 := rfl
  rw [hsize, hchunk] at hprogress
  exact ⟨houtcome, hprogress⟩

end SborSchema.Batch
