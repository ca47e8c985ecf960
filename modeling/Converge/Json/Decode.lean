import Converge.Error
import Converge.Json

/-!
# Decoding records

The steps by which typed data is read from a document value. A record is an object of which only
the known fields count. A known field that occurs twice is an error, and so is one that is neither
there nor optional. A field with a default may be left out, but not be `null`; an optional one may
be `null` as well.

The fields of a record are read in the order of their names, and a missing one is noticed after
all others have been read. So of two faults the answer names the one in the earlier field.
-/

namespace Converge

/-- Why a value is not of the wanted type. -/
inductive DecodeError where
  /-- The value has another shape than the type asks for. -/
  | mismatch
  /-- A text inside the value breaks a rule of declarations. -/
  | invalid (cause : ConfigError)
deriving DecidableEq, Repr

namespace DecodeError

/-- The text of the broken rule, where there is one. -/
def message? : DecodeError → Option String
  | .mismatch => none
  | .invalid cause => some cause.message

end DecodeError

/-- Reading a value of type `α`, which may fail. -/
abbrev Decode (α : Type) := Except DecodeError α

namespace Json

def asBool : Json → Decode Bool
  | .bool value => .ok value
  | _ => .error .mismatch

def asString : Json → Decode String
  | .string value => .ok value
  | _ => .error .mismatch

/-- An unsigned integer of `width` bits. -/
def asUnsigned (width : Nat) : Json → Decode Nat
  | .number (.integer value) =>
    if 0 ≤ value ∧ value.toNat ≤ Number.maxUnsigned width then .ok value.toNat
    else .error .mismatch
  | _ => .error .mismatch

/-- A binary64 number; an integer is rounded to one. -/
def asDouble : Json → Decode Double
  | .number (.integer value) => .ok (Double.ofRatio (value < 0) value.natAbs 1)
  | .number (.double value) => .ok value
  | _ => .error .mismatch

/-- Any value, in canonical form. -/
def asValue (value : Json) : Decode Json :=
  if value.isFinite then .ok value.canonical else .error .mismatch

/-- An array, item by item. -/
def asList {α : Type} (decode : Json → Decode α) : Json → Decode (List α)
  | .array items => items.mapM decode
  | _ => .error .mismatch

/-- An object as a table; of two fields with one name the later stays. -/
def asTable {α : Type} (decode : Json → Decode α) : Json → Decode (Table α)
  | .object fields => do
    let entries ← fields.mapM fun field => do return (field.1, ← decode field.2)
    return Table.ofList entries
  | _ => .error .mismatch

def asAttributes : Json → Decode Attributes := asTable asValue

/-- `null` as nothing, and any other value by `decode`. -/
def asOption {α : Type} (decode : Json → Decode α) : Json → Decode (Option α)
  | .null => .ok none
  | value => some <$> decode value

/-- One of several names: the name itself, or an object that holds nothing but a `null` under it. -/
def asName : Json → Decode String
  | .string name => .ok name
  | .object [(name, .null)] => .ok name
  | _ => .error .mismatch

/-- One of the values of an enumeration, by its name. -/
def asEnum {α : Type} (values : List (String × α)) (value : Json) : Decode α := do
  let name ← value.asName
  match values.lookup name with
  | some found => return found
  | none => .error .mismatch

/-- The fields of a record. -/
def asRecord : Json → Decode (List (String × Json))
  | .object fields => .ok fields
  | _ => .error .mismatch

end Json

namespace Decode

/-- The field `name`, if it is there. -/
def field? {α : Type} (fields : List (String × Json)) (name : String) (decode : Json → Decode α) :
    Decode (Option α) :=
  match fields.filter (fun field => field.1 == name) with
  | [] => .ok none
  | [(_, value)] => some <$> decode value
  | _ => .error .mismatch

/-- A field that has to be there. -/
def need {α : Type} : Option α → Decode α
  | some value => .ok value
  | none => .error .mismatch

/-- The field `name`, or `default` in its absence. -/
def fieldOr {α : Type} (fields : List (String × Json)) (name : String) (default : α)
    (decode : Json → Decode α) : Decode α := do
  return (← field? fields name decode).getD default

/-- The optional field `name`; absent and `null` are the same. -/
def optional {α : Type} (fields : List (String × Json)) (name : String) (decode : Json → Decode α) :
    Decode (Option α) := do
  return (← field? fields name (Json.asOption decode)).getD none

end Decode

end Converge
