/-
# Names of types

A name of a type is that of a leaf, a name with `[]` after it for an array, or
a name between `option<` and `>`. Blanks around each of them do not count.

Key definitions: `TypeExpr.ofNameChars`, `TypeExpr.ofName`.
-/
import SborSchema.Text.Blank
import SborSchema.TypeExpr.Fault

namespace SborSchema.TypeExpr

/-- What stands before the brackets of an array. -/
def elementName? (cs : List Char) : Option (List Char) :=
  match cs.reverse with
  | ']' :: '[' :: element => some element.reverse
  | _ => none

/-- What stands between the brackets of an option. -/
def innerName? : List Char → Option (List Char)
  | 'o' :: 'p' :: 't' :: 'i' :: 'o' :: 'n' :: '<' :: rest =>
    match rest.reverse with
    | '>' :: inner => some inner.reverse
    | _ => none
  | _ => none

theorem eq_of_elementName? {cs element : List Char} (h : elementName? cs = some element) :
    cs = element ++ ['[', ']'] := by
  unfold elementName? at h
  split at h
  · rename_i rest e
    have hr : rest.reverse = element := Option.some.inj h
    have hc := congrArg List.reverse e
    rw [List.reverse_reverse] at hc
    rw [hc, ← hr]
    simp
  · simp at h

theorem eq_of_innerName? {cs inner : List Char} (h : innerName? cs = some inner) :
    cs = ['o', 'p', 't', 'i', 'o', 'n', '<'] ++ inner ++ ['>'] := by
  unfold innerName? at h
  split at h
  · rename_i rest
    split at h
    · rename_i r e
      have hr : r.reverse = inner := Option.some.inj h
      have hc := congrArg List.reverse e
      rw [List.reverse_reverse] at hc
      rw [hc, ← hr]
      simp
    · simp at h
  · simp at h

theorem length_elementName? {cs element : List Char}
    (h : elementName? (Text.trim cs) = some element) : element.length < cs.length := by
  have hl := congrArg List.length (eq_of_elementName? h)
  have ht := Text.length_trim_le cs
  simp only [List.length_append, List.length_cons, List.length_nil] at hl
  omega

theorem length_innerName? {cs inner : List Char}
    (h : innerName? (Text.trim cs) = some inner) : inner.length < cs.length := by
  have hl := congrArg List.length (eq_of_innerName? h)
  have ht := Text.length_trim_le cs
  simp only [List.length_append, List.length_cons, List.length_nil] at hl
  omega

/-- The type of a name. -/
def ofNameChars (cs : List Char) : Except TypeFault TypeExpr :=
  match h : elementName? (Text.trim cs) with
  | some element =>
    have := length_elementName? h
    (ofNameChars element).map .array
  | none =>
    match h : innerName? (Text.trim cs) with
    | some inner =>
      have := length_innerName? h
      (ofNameChars inner).map .option
    | none =>
      let name := String.ofList (Text.trim cs)
      match LeafType.ofName? name with
      | some l => .ok (.leaf l)
      | none => .error (.unknownName name)
termination_by cs.length

/-- The type of a name. -/
def ofName (name : String) : Except TypeFault TypeExpr := ofNameChars name.toList

end SborSchema.TypeExpr
