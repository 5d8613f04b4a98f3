/-
# Paths into a tree

A path names a node by the steps that lead to it from the root. A step is a
field or variant name, or a position. A walk holds its path as a chain that
grows at its inner end, one step for each level it goes down (`Path`); only a
report writes the steps out, from the root (`Route`). They are met the other way
round, from the innermost step back to the root, which is no step itself
(`Path.backward`), and turned around.

Paths are written as their steps with points between them; a step of a name that
holds a point is not marked, so the written form is for reading only.

Key definitions: `Segment`, `Route`, `Route.texts`, `Route.text`, `Path`, `Path.segments`.
-/
import SborSchema.Digits

namespace SborSchema

/-- One step from a node to a node below it. -/
inductive Segment
  | field (name : String)
  | index (position : Nat)
deriving DecidableEq, Repr

/-- The written form of a step. -/
def Segment.text : Segment → String
  | field name => name
  | index i => Digits.text i

/-- The steps from the root to a node, outermost first. -/
abbrev Route := List Segment

namespace Route

/-- The written forms of the steps. -/
def texts (r : Route) : List String := r.map Segment.text

/-- The written form: empty at the root. -/
def text (r : Route) : String := ".".intercalate r.texts

end Route

/-- The place a walk has come to: the root, or a step below another place. -/
inductive Path
  | root
  | step (parent : Path) (segment : Segment)
deriving Repr

namespace Path

/-- The step to a named part of the node at `p`. -/
def field (p : Path) (name : String) : Path := p.step (.field name)

/-- The step to a position in the node at `p`. -/
def index (p : Path) (i : Nat) : Path := p.step (.index i)

/-- The path is that of the root. -/
def isEmpty : Path → Bool
  | root => true
  | step .. => false

/-- The steps on the way back to the root, innermost first. -/
def backward : Path → List Segment
  | root => []
  | step parent segment => segment :: parent.backward

/-- The steps from the root. -/
def segments (p : Path) : Route := p.backward.reverse

/-- A report at a path names the steps from the root. -/
instance : Coe Path Route := ⟨segments⟩

@[simp] theorem segments_root : root.segments = [] := rfl

/-- The last step taken is the innermost one. -/
@[simp] theorem segments_step (p : Path) (segment : Segment) :
    (p.step segment).segments = p.segments ++ [segment] := by
  rw [segments, backward, List.reverse_cons]
  rfl

/-- The written forms of the steps. -/
def texts (p : Path) : List String := p.segments.texts

/-- The written form for a reader, with a word for the root. -/
def display (p : Path) : String := if p.isEmpty then "<root>" else p.segments.text

end Path

end SborSchema
