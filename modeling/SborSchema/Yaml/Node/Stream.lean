/-
# From tokens to nodes

The tokens are read by the grammar of the language. A node that is missing
where one may stand is an empty scalar. A stream holds documents one after
the other: the first needs no mark at its start, each further one does. A fault
ends the stream; the documents before it stand.

Key definitions: `Yaml.NodeReader`, `Yaml.readNode`, `Yaml.nodesOf`.
-/
import SborSchema.Yaml.Node
import SborSchema.Yaml.Token.Stream

namespace SborSchema.Yaml

/-- What is left of the tokens of a document, and the names in use. -/
structure NodeProgress where
  tokens : List Token
  /-- What the handles of tags stand for. -/
  handles : List (String × List UInt8)
  /-- The anchors and their numbers, latest first. -/
  anchors : List (String × Nat)

/-- A step that reads a part of a document. -/
abbrev NodeReader := StateT NodeProgress (Except Fault)

namespace NodeReader

/-- The next token. -/
def peek : NodeReader Token := do
  return (← get).tokens.head?.getD .streamEnd

/-- Goes on after the next token. -/
def skip : NodeReader Unit :=
  modify fun s => { s with tokens := s.tokens.tail }

/-- Refuses the next token. -/
def refuse {α : Type} : NodeReader α := do
  match ← peek with
  | .broken f => throw f
  | _ => throw .unexpectedToken

/-- The number of an anchor of a given name, which is in use from now on. -/
def declare (name : String) : NodeReader Nat := do
  let s ← get
  let id := (s.anchors.map (·.1)).eraseDups.length
  set { s with anchors := (name, id) :: s.anchors }
  return id

/-- The number of the anchor an alias refers to. -/
def refer (name : String) : NodeReader Nat := do
  match (← get).anchors.find? (·.1 == name) with
  | some (_, id) => return id
  | none => throw .unknownAlias

/-- The tag that a handle and a suffix stand for. -/
def resolve (handle : String) (suffix : List UInt8) : NodeReader Tag := do
  if handle.isEmpty then return .ofBytes suffix
  else match (← get).handles.find? (·.1 == handle) with
    | some (_, lead) => return .ofBytes (lead ++ suffix)
    | none => throw .tag

/-- The anchor and the tag in front of a node, in either order. -/
def readMarks : NodeReader (Option String × Option (String × List UInt8)) := do
  match ← peek with
  | .anchor name =>
    skip
    match ← peek with
    | .tag handle suffix =>
      skip
      return (some name, some (handle, suffix))
    | _ => return (some name, none)
  | .tag handle suffix =>
    skip
    match ← peek with
    | .anchor name =>
      skip
      return (some name, some (handle, suffix))
    | _ => return (none, some (handle, suffix))
  | _ => return (none, none)

mutual

/-- A node. Block collections are allowed when `block` holds, and a sequence that is not
indented when `indentless` holds. -/
def readNode : Nat → (block indentless : Bool) → NodeReader Node
  | 0, _, _ => refuse
  | fuel + 1, block, indentless => do
    if let .reference name ← peek then
      skip
      return .reference (← refer name)
    let (anchor, mark) ← readMarks
    let tag ← mark.mapM fun (handle, suffix) => resolve handle suffix
    let t ← peek
    let collection := t = .flowSequenceStart ∨ t = .flowMappingStart ∨
      (block ∧ (t = .blockSequenceStart ∨ t = .blockMappingStart)) ∨
      (indentless ∧ t = .blockEntry)
    let isNode := collection ∨ anchor.isSome ∨ tag.isSome ∨ t matches .scalar ..
    if !isNode then refuse
    let p : Properties := { anchor := ← anchor.mapM declare, tag }
    if collection then
      if t ≠ .blockEntry then skip
      match t with
      | .flowSequenceStart => return .sequence p (← readFlowItems fuel true)
      | .flowMappingStart => return .mapping p (← readFlowEntries fuel true)
      | .blockSequenceStart => return .sequence p (← readBlockItems fuel)
      | .blockMappingStart => return .mapping p (← readBlockEntries fuel)
      | _ => return .sequence p (← readIndentlessItems fuel)
    else match t with
      | .scalar text style =>
        skip
        return .scalar p text style
      | _ => return .blank p

/-- A node, unless one of the tokens that may follow it comes at once. -/
def readNodeBefore : Nat → (ends : List Token) → (block indentless : Bool) → NodeReader Node
  | 0, _, _, _ => refuse
  | fuel + 1, ends, block, indentless => do
    if ends.contains (← peek) then return .blank ⟨none, none⟩
    else readNode fuel block indentless

/-- The items of a block sequence after its start. -/
def readBlockItems : Nat → NodeReader (List Node)
  | 0 => refuse
  | fuel + 1 => do
    match ← peek with
    | .blockEntry =>
      skip
      let item ← readNodeBefore fuel [.blockEntry, .blockEnd] true false
      return item :: (← readBlockItems fuel)
    | .blockEnd =>
      skip
      return []
    | _ => refuse

/-- The items of a sequence that is not indented. -/
def readIndentlessItems : Nat → NodeReader (List Node)
  | 0 => refuse
  | fuel + 1 => do
    match ← peek with
    | .blockEntry =>
      skip
      let item ← readNodeBefore fuel [.blockEntry, .key, .value, .blockEnd] true false
      return item :: (← readIndentlessItems fuel)
    | _ => return []

/-- The entries of a block mapping after its start. -/
def readBlockEntries : Nat → NodeReader (List (Node × Node))
  | 0 => refuse
  | fuel + 1 => do
    match ← peek with
    | .key =>
      skip
      let key ← readNodeBefore fuel [.key, .value, .blockEnd] true true
      let value ← readValueBefore fuel [.key, .value, .blockEnd] true true
      return (key, value) :: (← readBlockEntries fuel)
    | .blockEnd =>
      skip
      return []
    | _ => refuse

/-- The value of an entry: an empty scalar where there is none. -/
def readValueBefore : Nat → (ends : List Token) → (block indentless : Bool) → NodeReader Node
  | 0, _, _, _ => refuse
  | fuel + 1, ends, block, indentless => do
    if (← peek) = .value then
      skip
      readNodeBefore fuel ends block indentless
    else return .blank ⟨none, none⟩

/-- The items of a flow sequence; `first` holds after its opening bracket. -/
def readFlowItems : Nat → (first : Bool) → NodeReader (List Node)
  | 0, _ => refuse
  | fuel + 1, first => do
    if !first ∧ (← peek) ≠ .flowSequenceEnd then
      if (← peek) = .flowEntry then skip else refuse
    match ← peek with
    | .flowSequenceEnd =>
      skip
      return []
    | .key =>
      skip
      let entry ← readSingleEntry fuel
      return .mapping ⟨none, none⟩ [entry] :: (← readFlowItems fuel false)
    | _ =>
      let item ← readNode fuel false false
      return item :: (← readFlowItems fuel false)

/-- The one entry of a mapping without brackets in a flow sequence. Where its key is
missing, the token in its place is passed over. -/
def readSingleEntry : Nat → NodeReader (Node × Node)
  | 0 => refuse
  | fuel + 1 => do
    let t ← peek
    let key ← readNodeBefore fuel [.value, .flowEntry, .flowSequenceEnd] false false
    if t = .value ∨ t = .flowEntry ∨ t = .flowSequenceEnd then skip
    let value ← readValueBefore fuel [.flowEntry, .flowSequenceEnd] false false
    return (key, value)

/-- The entries of a flow mapping; `first` holds after its opening brace. -/
def readFlowEntries : Nat → (first : Bool) → NodeReader (List (Node × Node))
  | 0, _ => refuse
  | fuel + 1, first => do
    if !first ∧ (← peek) ≠ .flowMappingEnd then
      if (← peek) = .flowEntry then skip else refuse
    match ← peek with
    | .flowMappingEnd =>
      skip
      return []
    | .key =>
      skip
      let key ← readNodeBefore fuel [.value, .flowEntry, .flowMappingEnd] false false
      let value ← readValueBefore fuel [.flowEntry, .flowMappingEnd] false false
      return (key, value) :: (← readFlowEntries fuel false)
    | _ =>
      let key ← readNode fuel false false
      return (key, .blank ⟨none, none⟩) :: (← readFlowEntries fuel false)

end

/-- What handles of tags stand for unless a document says otherwise. -/
def defaultHandles : List (String × List UInt8) :=
  [("!", "!".toUTF8.toList), ("!!", coreTagLead.toUTF8.toList)]

/-- The directives in front of a document; `versioned` holds after that of the version. -/
def readDirectives : Nat → (versioned : Bool) → List (String × List UInt8) →
    NodeReader (List (String × List UInt8))
  | 0, _, _ => refuse
  | fuel + 1, versioned, handles => do
    match ← peek with
    | .versionDirective major minor =>
      if versioned ∨ major ≠ 1 ∨ (minor ≠ 1 ∧ minor ≠ 2) then throw .directive
      skip
      readDirectives fuel true handles
    | .tagDirective handle lead =>
      if handles.any (·.1 == handle) then throw .directive
      skip
      readDirectives fuel versioned (handles ++ [(handle, lead)])
    | _ => return handles ++ defaultHandles

/-- Skips marks of the end of a document. -/
def skipDocumentEnds : Nat → NodeReader Unit
  | 0 => pure ()
  | fuel + 1 => do
    if (← peek) = .documentEnd then
      skip
      skipDocumentEnds fuel

/-- The directives and the mark in front of a document. -/
def readDocumentStart (fuel : Nat) : NodeReader Unit := do
  let handles ← readDirectives fuel false []
  if (← peek) ≠ .documentStart then refuse
  skip
  modify fun s => { s with handles }

/-- Whether a document after its mark has no content when this token comes. -/
def endsDocument : Token → Bool
  | .versionDirective .. => true
  | .tagDirective .. => true
  | .documentStart => true
  | .documentEnd => true
  | .streamEnd => true
  | _ => false

/-- Whether the first document of a stream starts with a mark or a directive. -/
def isExplicit : Token → Bool
  | .versionDirective .. => true
  | .tagDirective .. => true
  | .documentStart => true
  | _ => false

/-- The content of a document after its mark. -/
def readContent (fuel : Nat) : NodeReader Node := do
  if endsDocument (← peek) then return .blank ⟨none, none⟩ else readNode fuel true false

/-- What follows the content of a document: a mark of its end is passed over. -/
def readDocumentEnd : NodeReader Unit := do
  match ← peek with
  | .broken f => throw f
  | .documentEnd => skip
  | _ => pure ()

/-- The next document of a stream, if there is one. -/
def readDocument (fuel : Nat) (first : Bool) : NodeReader (Option Node) := do
  modify fun s => { s with handles := defaultHandles, anchors := [] }
  if !first then skipDocumentEnds fuel
  let t ← peek
  if t = .streamEnd then return none
  let node ←
    if first ∧ !isExplicit t then readNode fuel true false
    else do
      readDocumentStart fuel
      readContent fuel
  readDocumentEnd
  return some node

/-- The documents from a place on, at most `count` of them; a fault is the last. -/
def readDocuments (fuel : Nat) : Nat → (first : Bool) → NodeProgress → List (Except Fault Node)
  | 0, _, _ => []
  | count + 1, first, s =>
    match (readDocument fuel first).run s with
    | .error f => [.error f]
    | .ok (none, _) => []
    | .ok (some node, s) => .ok node :: readDocuments fuel count false s

end NodeReader

/-- The documents of a text; a fault is the last. -/
def nodesOf (text : String) : List (Except Fault Node) :=
  let tokens := tokensOf text
  NodeReader.readDocuments (4 * tokens.length + 4) (tokens.length + 1) true ⟨tokens, [], []⟩

end SborSchema.Yaml
