/-
# Records in JSON text

A record is an object of which some members are wanted, or an array of their
values in order. A member that is not wanted is only checked for its form:
its numbers may be of any size, its arrays and objects nest to any depth, and
the escapes of its strings need not stand for characters.

Key definitions: `Json.skipValue`, `Json.Shape`, `Json.readShape`, `Json.ofRecordText?`.
-/
import SborSchema.Json.Reader

namespace SborSchema.Json

/-- What follows a string after its opening quote, whatever characters it stands for. -/
def skipString : List Char → Option (Unit × List Char)
  | '"' :: rest => some ((), rest)
  | '\\' :: 'u' :: a :: b :: c :: d :: rest =>
    if (hexUnit? a b c d).isSome then skipString rest else none
  | '\\' :: c :: rest => if (shortEscape? c).isSome then skipString rest else none
  | c :: rest => if c.toNat < 0x20 then none else skipString rest
  | [] => none
termination_by structural cs => cs

/-- What follows a number after its sign, whatever its size. -/
def skipNumber (cs : List Char) : Option (Unit × List Char) :=
  (readParts? cs).map fun r => ((), r.2)

/-- What follows a value that is neither array nor object. -/
def skipScalar : List Char → Option (Unit × List Char)
  | 'n' :: 'u' :: 'l' :: 'l' :: rest => some ((), rest)
  | 't' :: 'r' :: 'u' :: 'e' :: rest => some ((), rest)
  | 'f' :: 'a' :: 'l' :: 's' :: 'e' :: rest => some ((), rest)
  | '"' :: rest => skipString rest
  | '-' :: rest => skipNumber rest
  | cs => skipNumber cs

/-- What follows a value in which arrays and objects nest at most `limit` deep and have at
most `width` parts each. -/
def skipValue (width : Nat) : (limit : Nat) → List Char → Option (Unit × List Char)
  | 0, cs => skipScalar (skipBlank cs)
  | limit + 1, cs =>
    match skipBlank cs with
    | '[' :: rest =>
      match skipBlank rest with
      | ']' :: rest => some ((), rest)
      | rest => (readItems (fun _ cs => skipValue width limit cs) width 0 rest).map fun r =>
        ((), r.2)
    | '\x7b' :: rest =>
      match skipBlank rest with
      | '\x7d' :: rest => some ((), rest)
      | rest =>
        (readMembers skipString (fun _ cs => skipValue width limit cs) width rest).map fun r =>
          ((), r.2)
    | cs => skipScalar cs

/-- Which members of a value are wanted. -/
inductive Shape
  /-- All of them. -/
  | whole
  /-- Those of a record, with what is wanted of each. -/
  | record (fields : List (String × Shape))

/-- What is wanted of the member of a given name, if it is wanted at all. -/
def Shape.named? (fields : List (String × Shape)) (name : String) : Option Shape :=
  (fields.find? (·.1 == name)).map (·.2)

/-- What is wanted of the value at a place. -/
def Shape.placed (fields : List (String × Shape)) (i : Nat) : Shape :=
  (fields[i]?.map (·.2)).getD .whole

/-- The members that were read. -/
def wantedMembers (members : List (String × Option Json)) : List (String × Json) :=
  members.filterMap fun (name, value) => value.map fun v => (name, v)

/-- A value without the members that are not wanted, and what follows. Arrays and objects
that are read nest at most `limit` deep. -/
def readShape (width : Nat) : (limit : Nat) → Shape → List Char → Option (Json × List Char)
  | 0, _, cs => readScalar (skipBlank cs)
  | limit + 1, .whole, cs => readValue width (limit + 1) cs
  | limit + 1, .record fields, cs =>
    match skipBlank cs with
    | '[' :: rest =>
      match skipBlank rest with
      | ']' :: rest => some (.array [], rest)
      | rest =>
        let item i cs := readShape width limit (Shape.placed fields i) cs
        (readItems item width 0 rest).map fun r => (.array r.1, r.2)
    | '\x7b' :: rest =>
      match skipBlank rest with
      | '\x7d' :: rest => some (.object [], rest)
      | rest =>
        let item name cs := match Shape.named? fields name with
          | some shape => (readShape width limit shape cs).map fun r => (some r.1, r.2)
          | none => (skipValue width width cs).map fun r => (none, r.2)
        (readMembers readText item width rest).map fun r => (.object (wantedMembers r.1), r.2)
    | cs => readScalar cs

/-- The value of the text of a file without the members that are not wanted. -/
def ofRecordText? (shape : Shape) (text : String) : Option Json :=
  readAll? (fun width cs => readShape width nestingLimit shape cs) text

end SborSchema.Json
