/-
# The depth of a tree

The depth is measured with a stack of nodes and levels, the height by
recursion on the tree. The stack reaches as deep as the deepest of its nodes
does from its level (`deepest_eq`), so the two measures agree
(`depth_eq_height`). What the induction over trees needs is that every child
is lower than its node (`height_lt_of_mem_children`).

A round of the loop visits one node (`visit`). It takes the node off the stack
and puts its children on, so there is one node less to visit, whatever the
stack holds: the loop ends after as many rounds as the tree has nodes
(`iterate_visit_eq_nil_iff`).

Key definitions: `Tree.reach`, `Tree.visit`, `Tree.pending`.
Key theorems: `Tree.height_eq`, `Tree.exists_highest`, `Tree.depth_eq_height`,
`Tree.height_lt_of_mem_children`, `Tree.iterate_visit_eq_nil_iff`, `Tree.iterate_visit`.
-/
import Mathlib.Logic.Function.Iterate
import SborSchema.Tree

namespace SborSchema
namespace Tree

theorem heightEntries_eq : ∀ es : List (Tree × Tree),
    heightEntries es = heightList (es.flatMap fun e => [e.1, e.2])
  | [] => rfl
  | (k, v) :: es => by simp [heightEntries, heightList, heightEntries_eq es, Nat.max_assoc]

/-- A tree is one node higher than the highest of its children. -/
theorem height_eq (t : Tree) : t.height = 1 + heightList t.children := by
  cases t <;> simp [height, children, heightList, heightEntries_eq]

theorem height_pos (t : Tree) : 0 < t.height := by
  rw [height_eq]
  omega

theorem height_le_heightList : ∀ {ts : List Tree} {t : Tree}, t ∈ ts → t.height ≤ heightList ts
  | u :: us, t, h => by
    simp only [heightList]
    rcases List.mem_cons.mp h with rfl | h
    · exact Nat.le_max_left _ _
    · exact Nat.le_trans (height_le_heightList h) (Nat.le_max_right _ _)

theorem height_lt_of_mem {ts : List Tree} {t : Tree} (h : t ∈ ts) :
    t.height < heightList ts + 1 :=
  Nat.lt_succ_of_le (height_le_heightList h)

/-- A child is lower than its node. -/
theorem height_lt_of_mem_children {t u : Tree} (h : u ∈ t.children) : u.height < t.height := by
  have := height_le_heightList h
  rw [height_eq t]
  omega

/-- Of some trees, one is at least as high as all of them. -/
theorem exists_highest : ∀ {ts : List Tree}, ts ≠ [] →
    ∃ u ∈ ts, heightList ts = u.height ∧ ∀ v ∈ ts, v.height ≤ u.height
  | [], h => absurd rfl h
  | [t], _ => by
    refine ⟨t, List.mem_singleton_self t, ?_, ?_⟩
    · simp [heightList]
    · intro v hv
      obtain rfl := List.mem_singleton.mp hv
      exact Nat.le_refl _
  | t :: t' :: ts, _ => by
    have hrest : t' :: ts ≠ [] := List.cons_ne_nil t' ts
    obtain ⟨u, hu, hheight, hmax⟩ := exists_highest hrest
    have hlist : heightList (t :: t' :: ts) = max t.height u.height := by rw [heightList, hheight]
    rcases Nat.le_total t.height u.height with hle | hle
    · refine ⟨u, List.mem_cons_of_mem t hu, ?_, List.forall_mem_cons.mpr ⟨hle, hmax⟩⟩
      rw [hlist, Nat.max_eq_right hle]
    · refine ⟨t, List.mem_cons_self, ?_, List.forall_mem_cons.mpr ⟨Nat.le_refl _, ?_⟩⟩
      · rw [hlist, Nat.max_eq_left hle]
      · intro v hv
        exact Nat.le_trans (hmax v hv) hle

/-- The deepest level below the nodes of a stack, each counted from its own level. -/
def reach : List (Tree × Nat) → Nat
  | [] => 0
  | (t, level) :: rest => max (level + heightList t.children) (reach rest)

theorem reach_append : ∀ s u : List (Tree × Nat), reach (s ++ u) = max (reach s) (reach u)
  | [], u => by simp [reach]
  | p :: s, u => by simp [reach, reach_append s u, Nat.max_assoc]

theorem reach_reverse : ∀ s : List (Tree × Nat), reach s.reverse = reach s
  | [] => rfl
  | p :: s => by
    rw [List.reverse_cons, reach_append, reach_reverse s]
    simp [reach, Nat.max_comm]

/-- A node at a level and its children one level below reach equally deep. -/
theorem reach_children (level : Nat) : ∀ ts : List Tree,
    max level (reach (ts.map fun t => (t, level + 1))) = level + heightList ts
  | [] => by simp [reach, heightList]
  | t :: ts => by
    have ih := reach_children level ts
    have ht := height_eq t
    simp only [List.map_cons, reach, heightList]
    omega

/-- The stack loop gives the best level so far, or what the stack reaches if that is deeper. -/
theorem deepest_eq (stack : List (Tree × Nat)) (best : Nat) :
    deepest stack best = max best (reach stack) := by
  fun_induction deepest stack best with
  | case1 best => simp [reach]
  | case2 best t level rest ih =>
    have hc := reach_children level t.children
    rw [ih, reach_append, reach_reverse, reach]
    omega

/-- **The depth measured with the stack is the height.** -/
theorem depth_eq_height (t : Tree) : t.depth = t.height := by
  rw [depth, deepest_eq, height_eq]
  simp [reach]

/-! ### Rounds of the loop -/

/-- One round of the loop, on the stack and the deepest level so far: the node on top is taken
off, and its children are put on. Nothing is left to do on an empty stack. -/
def visit : List (Tree × Nat) × Nat → List (Tree × Nat) × Nat
  | ([], best) => ([], best)
  | ((t, level) :: rest, best) =>
    ((t.children.map fun c => (c, level + 1)).reverse ++ rest, max best level)

/-- The number of nodes that are still to be visited. -/
def pending (stack : List (Tree × Nat)) : Nat := sizeList (stack.map Prod.fst)

/-- A round visits one node. -/
theorem pending_visit (state : List (Tree × Nat) × Nat) :
    pending (visit state).1 = pending state.1 - 1 := by
  obtain ⟨stack, best⟩ := state
  cases stack with
  | nil => rfl
  | cons top rest =>
    obtain ⟨t, level⟩ := top
    have hsize : (t, level).1.size = 1 + sizeList t.children := size_eq t
    have hpushed : (((t.children.map fun c => (c, level + 1)).reverse ++ rest).map Prod.fst) =
        t.children.reverse ++ rest.map Prod.fst := by
      rw [List.map_append, List.map_reverse, List.map_map]
      simp [Function.comp_def]
    rw [visit, pending, pending, hpushed, sizeList_append, sizeList_reverse, List.map_cons,
      sizeList]
    omega

/-- A round does not change what the loop comes to. -/
theorem deepest_visit (state : List (Tree × Nat) × Nat) :
    deepest (visit state).1 (visit state).2 = deepest state.1 state.2 := by
  obtain ⟨stack, best⟩ := state
  cases stack with
  | nil => rfl
  | cons top rest =>
    obtain ⟨t, level⟩ := top
    rw [visit, deepest]

theorem pending_iterate_visit (n : Nat) (state : List (Tree × Nat) × Nat) :
    pending (visit^[n] state).1 = pending state.1 - n := by
  induction n with
  | zero => rfl
  | succ n ih =>
    rw [Function.iterate_succ_apply', pending_visit, ih]
    omega

theorem deepest_iterate_visit (n : Nat) (state : List (Tree × Nat) × Nat) :
    deepest (visit^[n] state).1 (visit^[n] state).2 = deepest state.1 state.2 := by
  induction n with
  | zero => rfl
  | succ n ih => rw [Function.iterate_succ_apply', deepest_visit, ih]

theorem pending_eq_zero_iff {stack : List (Tree × Nat)} : pending stack = 0 ↔ stack = [] := by
  cases stack with
  | nil => simp [pending, sizeList]
  | cons top rest =>
    have hsize := size_eq top.1
    simp only [pending, List.map_cons, sizeList, reduceCtorEq, iff_false]
    omega

/-- **The loop ends after as many rounds as the tree has nodes**, and not before. -/
theorem iterate_visit_eq_nil_iff (t : Tree) (n : Nat) :
    (visit^[n] ([(t, 1)], 0)).1 = [] ↔ t.size ≤ n := by
  rw [← pending_eq_zero_iff, pending_iterate_visit]
  simp only [pending, List.map_cons, List.map_nil, sizeList]
  omega

/-- When the loop has ended, it has found the depth. -/
theorem iterate_visit (t : Tree) : visit^[t.size] ([(t, 1)], 0) = ([], t.depth) := by
  have hend : (visit^[t.size] ([(t, 1)], 0)).1 = [] :=
    (iterate_visit_eq_nil_iff t t.size).mpr (Nat.le_refl _)
  have hdepth := deepest_iterate_visit t.size ([(t, 1)], 0)
  rw [hend, deepest] at hdepth
  exact Prod.ext hend hdepth

end Tree
end SborSchema
