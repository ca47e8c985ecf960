import Converge.Yaml.Scan

/-!
# Nodes of a YAML document

Tokens put together: scalars, sequences, mappings, and aliases for nodes that carry an anchor.

An anchor gets the number of different names before it. An alias means the last node of the whole
document whose anchor has the number that the name stands for at the alias.
-/

namespace Converge.Yaml

/-- A node of a document. -/
inductive Node where
  | scalar (text : String) (style : Style) (tag : Option String)
  | sequence (tag : Option String) (items : List Node)
  | mapping (tag : Option String) (entries : List (Node × Node))
  | alias (number : Nat)
deriving Inhabited

/-- A node that carries an anchor. -/
structure Anchored where
  number : Nat
  /-- Number of anchored nodes that begin before it. -/
  order : Nat
  node : Node

/-- A document. -/
structure Document where
  root : Node
  anchored : List Anchored
  /-- Number of scalars, aliases, and beginnings and ends of collections. -/
  events : Nat

/-- A document under way. -/
structure Assembly where
  tokens : List Token
  /-- What the handles of tags stand for. -/
  handles : List (String × String) := []
  /-- The numbers of the anchors' names, each name once. -/
  names : List (String × Nat) := []
  /-- Number of anchored nodes that have begun. -/
  begun : Nat := 0
  anchored : List Anchored := []
  events : Nat := 0

/-- A step of putting a document together. -/
abbrev Assemble := StateT Assembly (Except Fault)

namespace Assemble

/-- The next token. -/
def peek : Assemble Token := do return (← get).tokens.head?.getD .streamEnd

/-- Steps over a token. -/
def skip : Assemble Unit := modify fun s => { s with tokens := s.tokens.drop 1 }

/-- Steps over a token and gives the one after it. -/
def skipPeek : Assemble Token := do
  skip
  peek

/-- Counts parts of the document. -/
def count (events : Nat) : Assemble Unit := modify fun s => { s with events := s.events + events }

/-- The full text of a tag. -/
def resolveTag (handle suffix : String) : Assemble String := do
  if handle.isEmpty then return suffix
  match (← get).handles.lookup handle with
  | some tagPrefix => return tagPrefix ++ suffix
  | none => throw .undefinedTagHandle

/-- Reads the anchor and the tag of a node, in either order. -/
def properties : Assemble (Option String × Option String) := do
  match ← peek with
  | .anchor name =>
    match ← skipPeek with
    | .tag handle suffix =>
      skip
      return (some name, some (← resolveTag handle suffix))
    | _ => return (some name, none)
  | .tag handle suffix =>
    match ← skipPeek with
    | .anchor name =>
      skip
      return (some name, some (← resolveTag handle suffix))
    | _ => return (none, some (← resolveTag handle suffix))
  | _ => return (none, none)

/-- Begins a node that may carry an anchor: the number of the anchor and the order of the node. -/
def beginNode (anchor : Option String) : Assemble (Option (Nat × Nat)) := do
  match anchor with
  | none => return none
  | some name =>
    let s ← get
    let number := s.names.length
    set { s with
      names := (name, number) :: s.names.filter (·.1 != name)
      begun := s.begun + 1 }
    return some (number, s.begun)

/-- Ends a node that may carry an anchor. -/
def endNode (place : Option (Nat × Nat)) (node : Node) : Assemble Node := do
  match place with
  | none => return node
  | some (number, order) =>
    modify fun s => { s with anchored := ⟨number, order, node⟩ :: s.anchored }
    return node

/-- A node without any text. -/
def emptyNode (tag : Option String) : Assemble Node := do
  count 1
  return .scalar "" .plain tag

mutual

/-- Reads a node. A block collection may begin only where `block` says so, and a sequence without
indentation of its own only where `indentless` does. -/
def node : (fuel : Nat) → (block indentless : Bool) → Assemble Node
  | 0, _, _ => throw .nodeMissing
  | fuel + 1, block, indentless => do
    match ← peek with
    | .alias name =>
      skip
      count 1
      match (← get).names.lookup name with
      | some number => return .alias number
      | none => throw .unknownAnchor
    | _ =>
      let (anchor, tag) ← properties
      let place ← beginNode anchor
      let collection (read : Assemble Node) : Assemble Node := do
        count 2
        skip
        read
      let content ←
        match ← peek with
        | .blockEntry =>
          if indentless then
            count 2
            .sequence tag <$> indentlessItems fuel
          else if anchor.isSome || tag.isSome then emptyNode tag
          else throw .nodeMissing
        | .scalar text style =>
          skip
          count 1
          pure (.scalar text style tag)
        | .flowSequenceStart => collection (.sequence tag <$> flowItems fuel true)
        | .flowMappingStart => collection (.mapping tag <$> flowEntries fuel true)
        | .blockSequenceStart =>
          if block then collection (.sequence tag <$> blockItems fuel)
          else if anchor.isSome || tag.isSome then emptyNode tag
          else throw .nodeMissing
        | .blockMappingStart =>
          if block then collection (.mapping tag <$> blockEntries fuel)
          else if anchor.isSome || tag.isSome then emptyNode tag
          else throw .nodeMissing
        | _ =>
          if anchor.isSome || tag.isSome then emptyNode tag
          else throw .nodeMissing
      endNode place content

/-- Reads the items of a block sequence. -/
def blockItems : (fuel : Nat) → Assemble (List Node)
  | 0 => throw .nodeMissing
  | fuel + 1 => do
    match ← peek with
    | .blockEntry =>
      let item ←
        match ← skipPeek with
        | .blockEntry | .blockEnd => emptyNode none
        | _ => node fuel true false
      return item :: (← blockItems fuel)
    | .blockEnd =>
      skip
      return []
    | _ => throw .collectionEntry

/-- Reads the items of a sequence that is indented like the mapping around it. -/
def indentlessItems : (fuel : Nat) → Assemble (List Node)
  | 0 => throw .nodeMissing
  | fuel + 1 => do
    match ← peek with
    | .blockEntry =>
      let item ←
        match ← skipPeek with
        | .blockEntry | .key | .value | .blockEnd => emptyNode none
        | _ => node fuel true false
      return item :: (← indentlessItems fuel)
    | _ => return []

/-- Reads the entries of a block mapping. -/
def blockEntries : (fuel : Nat) → Assemble (List (Node × Node))
  | 0 => throw .nodeMissing
  | fuel + 1 => do
    match ← peek with
    | .key =>
      let key ←
        match ← skipPeek with
        | .key | .value | .blockEnd => emptyNode none
        | _ => node fuel true true
      let value ←
        match ← peek with
        | .value =>
          match ← skipPeek with
          | .key | .value | .blockEnd => emptyNode none
          | _ => node fuel true true
        | _ => emptyNode none
      return (key, value) :: (← blockEntries fuel)
    | .blockEnd =>
      skip
      return []
    | _ => throw .collectionEntry

/-- Reads the items of a flow sequence, of which a pair of key and value is one. -/
def flowItems : (fuel : Nat) → (first : Bool) → Assemble (List Node)
  | 0, _ => throw .nodeMissing
  | fuel + 1, first => do
    if (← peek) = .flowSequenceEnd then
      skip
      return []
    if !first then
      if (← peek) != .flowEntry then throw .collectionEntry
      skip
    match ← peek with
    | .flowSequenceEnd =>
      skip
      return []
    | .key =>
      count 2
      let key ←
        match ← skipPeek with
        | .value | .flowEntry | .flowSequenceEnd =>
          skip
          emptyNode none
        | _ => node fuel false false
      let value ←
        match ← peek with
        | .value =>
          match ← skipPeek with
          | .flowEntry | .flowSequenceEnd => emptyNode none
          | _ => node fuel false false
        | _ => emptyNode none
      return .mapping none [(key, value)] :: (← flowItems fuel false)
    | _ =>
      let item ← node fuel false false
      return item :: (← flowItems fuel false)

/-- Reads the entries of a flow mapping. -/
def flowEntries : (fuel : Nat) → (first : Bool) → Assemble (List (Node × Node))
  | 0, _ => throw .nodeMissing
  | fuel + 1, first => do
    if (← peek) = .flowMappingEnd then
      skip
      return []
    if !first then
      if (← peek) != .flowEntry then throw .collectionEntry
      skip
    match ← peek with
    | .flowMappingEnd =>
      skip
      return []
    | .key =>
      let key ←
        match ← skipPeek with
        | .value | .flowEntry | .flowMappingEnd => emptyNode none
        | _ => node fuel false false
      let value ←
        match ← peek with
        | .value =>
          match ← skipPeek with
          | .flowEntry | .flowMappingEnd => emptyNode none
          | _ => node fuel false false
        | _ => emptyNode none
      return (key, value) :: (← flowEntries fuel false)
    | _ =>
      let key ← node fuel false false
      let value ← emptyNode none
      return (key, value) :: (← flowEntries fuel false)

end

/-! ## Documents -/

/-- The handles that every document knows. -/
def defaultHandles : List (String × String) := [("!", "!"), ("!!", "tag:yaml.org,2002:")]

/-- Reads the directives at the beginning of a document. -/
def directives : (fuel : Nat) → (versioned : Bool) → Assemble Unit
  | 0, _ => throw .directive
  | fuel + 1, versioned => do
    match ← peek with
    | .version major minor =>
      if versioned || major != 1 || (minor != 1 && minor != 2) then throw .directive
      skip
      directives fuel true
    | .tagHandle handle tagPrefix =>
      if ((← get).handles.lookup handle).isSome then throw .directive
      modify fun s => { s with handles := s.handles ++ [(handle, tagPrefix)] }
      skip
      directives fuel versioned
    | _ => modify fun s => { s with handles := s.handles ++ defaultHandles }

/-- Steps over the marks at the end of a document. -/
def skipEnds : Assemble Unit :=
  modify fun s => { s with tokens := s.tokens.dropWhile (· = .documentEnd) }

/-- Reads the root of the only document of a text. -/
def root : Assemble Node := do
  let fuel := 2 * (← get).tokens.length + 2
  let root ←
    match ← peek with
    | .streamEnd => throw .documentCount
    | .version _ _ | .tagHandle _ _ | .documentStart =>
      directives fuel false
      if (← peek) != .documentStart then throw .documentStart
      match ← skipPeek with
      | .version _ _ | .tagHandle _ _ | .documentStart | .documentEnd | .streamEnd =>
        emptyNode none
      | _ => node fuel true false
    | _ =>
      directives fuel false
      node fuel true false
  skipEnds
  if (← peek) != .streamEnd then throw .documentCount
  return root

end Assemble

namespace Document

/-- The only document of a text. -/
def ofText (text : String) : Except Fault Document := do
  let (root, s) ← Assemble.root.run { tokens := ← tokens text }
  return { root, anchored := s.anchored, events := s.events }

/-- The later of two anchored nodes, if they carry the wanted number. -/
def later (number : Nat) (best : Option Anchored) (other : Anchored) : Option Anchored :=
  if other.number != number then best
  else
    match best with
    | some held => if held.order < other.order then some other else best
    | none => some other

/-- The node that an alias of the given number means. -/
def target? (d : Document) (number : Nat) : Option Node :=
  (d.anchored.foldl (later number) none).map (·.node)

end Document

end Converge.Yaml
