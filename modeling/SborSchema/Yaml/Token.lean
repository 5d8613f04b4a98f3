/-
# Tokens of a document

A document is a list of tokens: its scalars, tags, anchors and aliases, the
indicators it holds, and the starts and ends of blocks that its indentation
stands for. The last token is the end of the stream, or the fault that hides
the rest.

Key definitions: `Yaml.ScalarStyle`, `Yaml.Token`.
-/
import SborSchema.Yaml

namespace SborSchema.Yaml

/-- The ways to write a scalar. -/
inductive ScalarStyle
  | plain
  | singleQuoted
  | doubleQuoted
  | literal
  | folded
deriving DecidableEq, Repr

/-- A token of a document. -/
inductive Token
  | versionDirective (major minor : Nat)
  | tagDirective (handle : String) (lead : List UInt8)
  | documentStart
  | documentEnd
  | blockSequenceStart
  | blockMappingStart
  | blockEnd
  | flowSequenceStart
  | flowSequenceEnd
  | flowMappingStart
  | flowMappingEnd
  | blockEntry
  | flowEntry
  | key
  | value
  | reference (name : String)
  | anchor (name : String)
  | tag (handle : String) (suffix : List UInt8)
  | scalar (text : String) (style : ScalarStyle)
  | streamEnd
  | broken (fault : Fault)
deriving DecidableEq, Repr

end SborSchema.Yaml
