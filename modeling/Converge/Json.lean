import Converge.Table
import Converge.Number

/-!
# Document values

The value of a JSON document. An object keeps its fields in the order of the text, repeated names
included; `Json.canonical` brings it to the form in which values are compared and stored: fields
sorted by name, and of two with one name the later.
-/

namespace Converge

/-- A JSON value. -/
inductive Json where
  | null
  | bool (value : Bool)
  | number (value : Number)
  | string (value : String)
  | array (items : List Json)
  | object (fields : List (String × Json))
deriving Inhabited

/-- Values by name: what a resource is declared with, or what a provider reports of it. -/
abbrev Attributes := Table Json

namespace Json

/-- The integer `value`. -/
def integer (value : Int) : Json := .number (.integer value)

/-- The natural `value`. -/
def natural (value : Nat) : Json := .number (.integer value)

/-- Whether a value is `null`. -/
def isNull : Json → Bool
  | .null => true
  | _ => false

/-- The text of a string. -/
def string? : Json → Option String
  | .string value => some value
  | _ => none

/-- A table as an object. -/
def ofTable {α : Type} (encode : α → Json) (t : Table α) : Json :=
  .object (t.entries.map fun entry => (entry.1, encode entry.2))

/-- Attributes as an object. -/
def ofAttributes (t : Attributes) : Json := .object t.entries

/-- A list of texts as an array. -/
def ofStrings (texts : List String) : Json := .array (texts.map .string)

/-- An optional value, `null` in its absence. -/
def ofOption {α : Type} (encode : α → Json) (value : Option α) : Json := (value.map encode).getD .null

/-! ## Canonical form -/

mutual

/-- The same value with the fields of every object sorted by name; of two fields with one name
the later stays. -/
def canonical : Json → Json
  | .array items => .array (canonicalItems items)
  | .object fields => .object (Table.ofList (canonicalFields fields)).entries
  | .null => .null
  | .bool value => .bool value
  | .number value => .number value
  | .string value => .string value

def canonicalItems : List Json → List Json
  | [] => []
  | item :: rest => item.canonical :: canonicalItems rest

def canonicalFields : List (String × Json) → List (String × Json)
  | [] => []
  | (name, value) :: rest => (name, value.canonical) :: canonicalFields rest

end

mutual

/-- Whether every number in a value is finite. -/
def isFinite : Json → Bool
  | .number value => value.isFinite
  | .array items => areFinite items
  | .object fields => fieldsAreFinite fields
  | .null => true
  | .bool _ => true
  | .string _ => true

def areFinite : List Json → Bool
  | [] => true
  | item :: rest => item.isFinite && areFinite rest

def fieldsAreFinite : List (String × Json) → Bool
  | [] => true
  | (_, value) :: rest => value.isFinite && fieldsAreFinite rest

end

/-! ## Equality -/

mutual

/-- Equality of canonical values, with numbers compared numerically. -/
def agrees : Json → Json → Bool
  | .null, .null => true
  | .bool a, .bool b => a == b
  | .number a, .number b => a.agrees b
  | .string a, .string b => a == b
  | .array a, .array b => itemsAgree a b
  | .object a, .object b => fieldsAgree a b
  | _, _ => false

def itemsAgree : List Json → List Json → Bool
  | [], [] => true
  | a :: as, b :: bs => a.agrees b && itemsAgree as bs
  | _, _ => false

def fieldsAgree : List (String × Json) → List (String × Json) → Bool
  | [], [] => true
  | (n, a) :: as, (m, b) :: bs => n == m && a.agrees b && fieldsAgree as bs
  | _, _ => false

end

end Json

end Converge
