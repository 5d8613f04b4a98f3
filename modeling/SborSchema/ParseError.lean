/-
# Refusals

A tree that a schema does not accept is refused for one cause, at one place.
The cause carries what the message names; `Cause.message` is the only place
where a cause is put into words.

Key definitions: `FaultKind`, `Cause`, `Cause.kind`, `Cause.message`, `ParseError`,
`ParseError.text`, `ParseError.toJson`.
-/
import SborSchema.Hex
import SborSchema.Json
import SborSchema.KindSet
import SborSchema.Path
import SborSchema.Text.Listed

namespace SborSchema

/-- What sort of fault a refusal reports. -/
inductive FaultKind
  | wrongKind
  | missingFields
  | arityMismatch
  | unknownVariant
  | unitPayload
  | outOfRange
  | malformed
  | rejected
  | depthExceeded
  | detached
deriving DecidableEq, Repr

namespace FaultKind

/-- Every sort of fault, in order. -/
def all : List FaultKind :=
  [wrongKind, missingFields, arityMismatch, unknownVariant, unitPayload, outOfRange, malformed,
    rejected, depthExceeded, detached]

/-- The written name of a sort of fault. -/
def name : FaultKind → String
  | wrongKind => "wrong_kind"
  | missingFields => "missing_fields"
  | arityMismatch => "arity_mismatch"
  | unknownVariant => "unknown_variant"
  | unitPayload => "unit_payload"
  | outOfRange => "out_of_range"
  | malformed => "malformed"
  | rejected => "rejected"
  | depthExceeded => "depth_exceeded"
  | detached => "detached"

/-- The sort of fault of a given name. -/
def ofName? (name : String) : Option FaultKind := all.find? (·.name == name)

theorem ofName?_name (k : FaultKind) : ofName? k.name = some k := by
  cases k <;> decide

end FaultKind

/-- Why a node is refused. -/
inductive Cause
  /-- The kind of the node is not among the accepted ones. -/
  | wrongKind (accepted : KindSet) (found : Kind)
  /-- Declared fields that no child carries. -/
  | missingFields (names : List String)
  /-- A tuple with another number of children than declared. -/
  | arityMismatch (declared found : Nat)
  /-- An enum node with a variant that is not declared, or without one. -/
  | unknownVariant (variant : Option String) (declared : List String)
  /-- Fields below a variant that has none. -/
  | unitPayload (variant : String) (found : Nat)
  /-- A negative number under a kind without negative values. -/
  | negativeUnsigned (kind : IntegerKind) (text : String)
  /-- A number outside the range of its kind. -/
  | outsideRange (kind : IntegerKind) (text : String)
  /-- Seconds outside the calendar. -/
  | outsideCalendar (seconds : Int)
  /-- Text that is not a decimal integer. -/
  | notInteger (kind : IntegerKind) (text : String)
  /-- A byte string that declares another element kind than that of a byte. -/
  | notByteElements (found : Kind)
  /-- Text that is not a byte string. -/
  | notHex (fault : Hex.Fault)
  /-- A conversion refused the parsed value, in its own words. -/
  | rejected (reason : String)
  /-- A tree deeper than allowed. -/
  | depthExceeded (depth limit : Nat)
  /-- A reference whose recursive schema is gone. -/
  | detached
deriving DecidableEq, Repr

namespace Cause

/-- The sort of fault of a cause. -/
def kind : Cause → FaultKind
  | wrongKind .. => .wrongKind
  | missingFields _ => .missingFields
  | arityMismatch .. => .arityMismatch
  | unknownVariant .. => .unknownVariant
  | unitPayload .. => .unitPayload
  | negativeUnsigned .. => .outOfRange
  | outsideRange .. => .outOfRange
  | outsideCalendar _ => .outOfRange
  | notInteger .. => .malformed
  | notByteElements _ => .malformed
  | notHex _ => .malformed
  | rejected _ => .rejected
  | depthExceeded .. => .depthExceeded
  | detached => .detached

/-- The wording of a cause. -/
def message : Cause → String
  | wrongKind accepted found => "expected " ++ accepted.text ++ ", got " ++ found.name
  | missingFields names => "missing required field(s): " ++ Text.listed names
  | arityMismatch declared found =>
    "expected a tuple of " ++ Digits.text declared ++ " field(s), got " ++ Digits.text found
  | unknownVariant (some variant) declared =>
    "unknown variant `" ++ variant ++ "` (expected one of: " ++ Text.listed declared ++ ")"
  | unknownVariant none declared =>
    "enum node has no variant name (expected one of: " ++ Text.listed declared ++ ")"
  | unitPayload variant found =>
    "unit variant `" ++ variant ++ "` must have no fields, got " ++ Digits.text found
  | negativeUnsigned kind text =>
    "negative value " ++ text ++ " is not allowed for unsigned " ++ kind.name
  | outsideRange kind text =>
    "value " ++ text ++ " is out of range for " ++ kind.name ++ " (" ++ Digits.text kind.min ++
      "..=" ++ Digits.text kind.max ++ ")"
  | outsideCalendar seconds =>
    "timestamp " ++ Digits.text seconds ++ " is outside the representable date range"
  | notInteger kind text => "`" ++ text ++ "` is not a valid " ++ kind.name ++ " integer"
  | notByteElements found => "bytes must have element kind U8, got " ++ found.name
  | notHex fault => "invalid hex in bytes: " ++ fault.message
  | rejected reason => reason
  | depthExceeded depth limit =>
    "value tree depth " ++ Digits.text depth ++ " exceeds the limit of " ++ Digits.text limit
  | detached => "recursive schema reference used after its owner was dropped"

end Cause

/-- A refusal: its cause, and the path to the refused node. -/
structure ParseError where
  cause : Cause
  path : Route
deriving DecidableEq, Repr

namespace ParseError

/-- The wording of a refusal, with its place unless that is the root. -/
def text (e : ParseError) : String :=
  if e.path.isEmpty then e.cause.message
  else e.cause.message ++ " at `" ++ e.path.text ++ "`"

/-- A refusal as JSON. -/
def toJson (e : ParseError) : Json :=
  .object [("kind", .string e.cause.kind.name), ("message", .string e.cause.message),
    ("path", .array (e.path.texts.map .string))]

end ParseError

end SborSchema
