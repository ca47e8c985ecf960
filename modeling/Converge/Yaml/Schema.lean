import Converge.Yaml.Node
import Converge.Yaml.Plain

/-!
# Reading YAML by a schema

What a scalar stands for depends on what is wanted: where text is wanted, `123` is text. A schema
says what is wanted, and reading a document by it gives the document value to decode. Where a
record, list or table is wanted, an empty plain scalar is an empty one.

An alias is read as the node it means, which may be of any size or contain the alias itself.
Collections nest at most 128 levels, and aliases are followed at most a hundred times as often as
the document has parts.
-/

namespace Converge.Yaml

/-- What is wanted of a node. -/
inductive Schema where
  | text
  /-- An unsigned integer of 64 bits. -/
  | natural
  | double
  /-- The name of one of several values. -/
  | name
  | optional (inner : Schema)
  | list (item : Schema)
  | table (item : Schema)
  /-- Known fields; others do not count. -/
  | record (fields : List (String × Schema))
  /-- Whatever the node stands for. Numbers that are not finite become nothing. -/
  | value
  /-- Whatever the node stands for, in which mappings are records. -/
  | content
deriving Inhabited

/-- A schema without the mark of optional values, and whether it has it. -/
def Schema.unwrap : Schema → Bool × Schema
  | .optional inner => (true, inner.unwrap.2)
  | schema => (false, schema)

/-! ## Nodes -/

/-- How deep collections may nest. -/
def depthLimit : Nat := 128

/-- How often aliases may be followed, per part of the document. -/
def jumpsPerEvent : Nat := 100

/-- Reading, with the number of aliases followed so far. -/
abbrev Reading := StateT Nat (Except Fault)

/-- The node that is meant: an alias stands for its target. -/
def follow (d : Document) : Node → Reading Node
  | .alias number => do
    let jumps := (← get) + 1
    if jumpsPerEvent * d.events < jumps then throw .repetition
    set jumps
    match d.target? number with
    | some node => return node
    | none => throw .unknownAnchor
  | node => return node

/-- Whether a node is plain and without text. -/
def isBlankNode : Node → Bool
  | .scalar text .plain _ => text.isEmpty
  | _ => false

/-- The tags of the core types. -/
def coreTag (name : String) : String := "tag:yaml.org,2002:" ++ name

/-- Whether a tag is one of the document's own, which no value may carry. -/
def isLocalTag (tag : Option String) : Bool := (tag.map fun t => t.toList.head? == some '!').getD false

/-- Whether a node stands for nothing where nothing is allowed. -/
def isAbsent : Node → Reading Bool
  | .scalar text .plain tag =>
    if tag = some (coreTag "null") then
      if isNullWord text then pure true else throw .value
    else if tag.isSome then pure false
    else pure (text.isEmpty || isNullWord text)
  | _ => pure false

/-- A value that has to be there. -/
def need {α : Type} : Option α → Reading α
  | some value => pure value
  | none => throw .value

/-- What a scalar stands for where anything may stand. -/
def scalarValue (text : String) (style : Style) (tag : Option String) : Reading Json := do
  if isLocalTag tag then throw .value
  match tag with
  | none =>
    if style = .plain then
      match plainValue text with
      | .ok value => return value
      | .error () => throw .value
    return .string text
  | some tag =>
    if tag = coreTag "bool" then return .bool (← need (truthWord? text))
    if tag = coreTag "int" then
      match integer? text.toList with
      | .ok (some value) => return .integer value
      | _ => throw .value
    if tag = coreTag "float" then return .number (.double (← need (double? text)))
    if tag = coreTag "null" then
      if isNullWord text then return .null else throw .value
    return .string text

/-- Numbers are written plainly, or as a literal block with the tag of their type. -/
def isNumeral (type : String) (style : Style) (tag : Option String) : Bool :=
  style = .plain || (style = .literal && tag = some (coreTag type))

/-- The name of an enumeration's value: a scalar, or a local tag on nothing. -/
def enumName (text : String) (style : Style) (tag : Option String) : Reading Json := do
  match tag.map String.toList with
  | some ('!' :: name) =>
    if style = .plain && (text.isEmpty || isNullWord text) then
      return .string (if name.isEmpty then "!" else String.ofList name)
    else throw .value
  | _ => return .string text

/-- The text of a key. -/
def keyText (d : Document) (key : Node) : Reading String := do
  match ← follow d key with
  | .scalar text _ _ => return text
  | _ => throw .value

/-- What a scalar stands for where a schema without `optional` is wanted. -/
def readScalar (schema : Schema) (text : String) (style : Style) (tag : Option String) :
    Reading Json := do
  match schema with
  | .text => return .string text
  | .natural =>
    if !isNumeral "int" style tag then throw .value
    return .natural (← need (unsigned? (Number.maxUnsigned 64) text.toList))
  | .double =>
    if !isNumeral "float" style tag then throw .value
    return .number (.double (← need (double? text)))
  | .name => enumName text style tag
  | .value =>
    let value ← scalarValue text style tag
    return if value.isFinite then value else .null
  | .content => scalarValue text style tag
  | .list _ => if style = .plain && text.isEmpty then return .array [] else throw .value
  | .table _ | .record _ =>
    if style = .plain && text.isEmpty then return .object [] else throw .value
  | .optional _ => throw .value

/-- Reads the entries of a mapping by a schema, the values by `inner`. -/
def readEntries (d : Document) (inner : Schema → Node → Reading Json) (schema : Schema)
    (tag : Option String) (entries : List (Node × Node)) : Reading Json := do
  match schema with
  | .table item => do
    let fields ← entries.mapM fun (key, value) => do
      return (← keyText d key, ← inner item value)
    return .object fields
  | .record known => do
    let fields ← entries.filterMapM fun (key, value) => do
      let name ← keyText d key
      match known.lookup name with
      | some schema => return some (name, ← inner schema value)
      | none => return none
    return .object fields
  | .value => do
    if isLocalTag tag then throw .value
    let fields ← entries.mapM fun (key, value) => do
      return (← keyText d key, ← inner .value value)
    return .object fields
  | .content => do
    if isLocalTag tag then throw .value
    let fields ← entries.filterMapM fun (key, value) => do
      let name ← inner .content key
      let value ← inner .content value
      match name with
      | .string name => return some (name, value)
      | .number (.integer n) => if n < 0 then throw .value else return none
      | _ => throw .value
    return .object fields
  | _ => throw .value

/-- Reads the items of a sequence by a schema. -/
def readItems (inner : Schema → Node → Reading Json) (schema : Schema) (tag : Option String)
    (items : List Node) : Reading Json := do
  match schema with
  | .list item => return .array (← items.mapM (inner item))
  | .value | .content => do
    if isLocalTag tag then throw .value
    return .array (← items.mapM (inner schema))
  | _ => throw .value

/-- Reads a node by a schema; what is inside a collection is read by `inner`, and without that no
collection is entered. -/
def readNode (d : Document) (inner : Option (Schema → Node → Reading Json)) (schema : Schema)
    (node : Node) : Reading Json := do
  let node ← follow d node
  let (isOptional, schema) := schema.unwrap
  if isOptional && (← isAbsent node) then return .null
  match node, inner with
  | .scalar text style tag, _ => readScalar schema text style tag
  | .sequence tag items, some inner => readItems inner schema tag items
  | .mapping tag entries, some inner => readEntries d inner schema tag entries
  | .alias _, _ => throw .value
  | _, none => throw .nesting

/-- Reads a node by a schema, with collections nested at most `depth` levels. -/
def readDepth (d : Document) : (depth : Nat) → Schema → Node → Reading Json
  | 0 => readNode d none
  | depth + 1 => readNode d (some (readDepth d depth))

/-- The document value that a text holds by a schema. -/
def Schema.read (schema : Schema) (text : String) : Except Fault Json := do
  let d ← Document.ofText text
  (readDepth d depthLimit schema d.root).run' 0

end Converge.Yaml
