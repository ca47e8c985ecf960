import Converge.Json.Decode
import Converge.Resource.Reference

/-!
# Declared attributes

The value a declaration gives to an attribute: plain data in which outputs of other resources may
stand at any depth. In documents a reference is an object with the single field `ref`, a text.
-/

namespace Converge

/-- A declared value. The entries of a map are sorted by name. -/
inductive AttributeValue where
  /-- Plain data that is neither a list nor a map. -/
  | literal (value : Json)
  | list (items : List AttributeValue)
  | map (entries : List (String × AttributeValue))
  | reference (target : Reference)
deriving Inhabited

namespace AttributeValue

def text (value : String) : AttributeValue := .literal (.string value)

def natural (value : Nat) : AttributeValue := .literal (.natural value)

/-- The output `output` of `nodeId`. -/
def output (nodeId output : String) : AttributeValue := .reference ⟨nodeId, output⟩

/-- The field that marks a reference in documents. -/
def referenceField : String := "ref"

/-! ## References inside a value -/

mutual

/-- Every reference in a value, depth first, maps in the order of their names. -/
def references : AttributeValue → List Reference
  | .literal _ => []
  | .list items => itemReferences items
  | .map entries => entryReferences entries
  | .reference target => [target]

def itemReferences : List AttributeValue → List Reference
  | [] => []
  | item :: rest => item.references ++ itemReferences rest

def entryReferences : List (String × AttributeValue) → List Reference
  | [] => []
  | (_, value) :: rest => value.references ++ entryReferences rest

end

mutual

/-- The value as plain data, if it holds no reference. -/
def asLiteral : AttributeValue → Option Json
  | .literal value => some value
  | .list items => (itemsAsLiteral items).map .array
  | .map entries => (entriesAsLiteral entries).map .object
  | .reference _ => none

def itemsAsLiteral : List AttributeValue → Option (List Json)
  | [] => some []
  | item :: rest => do return (← item.asLiteral) :: (← itemsAsLiteral rest)

def entriesAsLiteral : List (String × AttributeValue) → Option (List (String × Json))
  | [] => some []
  | (name, value) :: rest => do return (name, ← value.asLiteral) :: (← entriesAsLiteral rest)

end

/-! ## Documents -/

mutual

/-- The document form of a value. -/
def toJson : AttributeValue → Json
  | .literal value => value
  | .list items => .array (itemsToJson items)
  | .map entries => .object (entriesToJson entries)
  | .reference target => .object [(referenceField, .string target.render)]

def itemsToJson : List AttributeValue → List Json
  | [] => []
  | item :: rest => item.toJson :: itemsToJson rest

def entriesToJson : List (String × AttributeValue) → List (String × Json)
  | [] => []
  | (name, value) :: rest => (name, value.toJson) :: entriesToJson rest

end

/-- The expression of an object that marks a reference. -/
def referenceExpression? : List (String × Json) → Option String
  | [(name, .string expression)] => if name == referenceField then some expression else none
  | _ => none

mutual

/-- The value that canonical data stands for. -/
def ofCanonical : Json → Decode AttributeValue
  | .array items => do return .list (← ofCanonicalItems items)
  | .object fields =>
    match referenceExpression? fields with
    | some expression =>
      match Reference.parse expression with
      | .ok target => .ok (.reference target)
      | .error cause => .error (.invalid cause)
    | none => do return .map (← ofCanonicalFields fields)
  | .null => .ok (.literal .null)
  | .bool value => .ok (.literal (.bool value))
  | .number value => .ok (.literal (.number value))
  | .string value => .ok (.literal (.string value))

def ofCanonicalItems : List Json → Decode (List AttributeValue)
  | [] => .ok []
  | item :: rest => do return (← ofCanonical item) :: (← ofCanonicalItems rest)

def ofCanonicalFields : List (String × Json) → Decode (List (String × AttributeValue))
  | [] => .ok []
  | (name, value) :: rest => do return (name, ← ofCanonical value) :: (← ofCanonicalFields rest)

end

/-- The value that a document stands for. -/
def ofJson (value : Json) : Decode AttributeValue := do ofCanonical (← value.asValue)

end AttributeValue

end Converge
