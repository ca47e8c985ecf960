import Converge.Json.Decode

/-!
# Settings of a stack

The sections of a declaration beside its resources: which project it is, where its state is kept,
which provider serves it, and how it is applied.
-/

namespace Converge

/-- Names the stack. -/
structure Project where
  name : String
  environment : String := "dev"
deriving DecidableEq, Repr

/-- Where state is kept. -/
inductive Backend where
  /-- A directory. -/
  | local
  /-- A bucket of an object store. -/
  | s3
deriving DecidableEq, Repr, Inhabited

/-- Where state is kept, in detail. -/
structure StateSettings where
  backend : Backend := .local
  bucket : Option String := none
  /-- What the keys in the bucket begin with. -/
  keyPrefix : Option String := none
  region : Option String := none
  /-- The directory, relative to that of the declaration. -/
  path : Option String := none
deriving DecidableEq, Repr

/-- The service that creates resources. -/
structure ProviderSettings where
  endpoint : Option String := none
  timeoutSecs : Nat := 30
deriving DecidableEq, Repr

/-- How a plan is applied. -/
structure ApplySettings where
  /-- How many provider calls may be under way at a time. -/
  concurrency : Nat := 4
  /-- How often a step is tried. -/
  maxAttempts : Nat := 5
  initialBackoffMs : Nat := 500
  maxBackoffMs : Nat := 30000
  /-- The share of a delay that chance may add or take away. -/
  jitter : Double := .ofDecimal false 2 (-1)
deriving DecidableEq

/-! ## Documents -/

namespace Project

def toJson (project : Project) : Json :=
  .object [("name", .string project.name), ("environment", .string project.environment)]

def ofJson (value : Json) : Decode Project := do
  let fields ← value.asRecord
  let environment ← Decode.fieldOr fields "environment" "dev" Json.asString
  let name ← Decode.field? fields "name" Json.asString
  return { name := ← Decode.need name, environment }

end Project

namespace Backend

def name : Backend → String
  | .local => "local"
  | .s3 => "s3"

def all : List Backend := [.local, .s3]

def toJson (backend : Backend) : Json := .string backend.name

def ofJson (value : Json) : Decode Backend :=
  value.asEnum (all.map fun backend => (backend.name, backend))

end Backend

namespace StateSettings

def toJson (settings : StateSettings) : Json :=
  .object [
    ("backend", settings.backend.toJson),
    ("bucket", .ofOption .string settings.bucket),
    ("prefix", .ofOption .string settings.keyPrefix),
    ("region", .ofOption .string settings.region),
    ("path", .ofOption .string settings.path)]

def ofJson (value : Json) : Decode StateSettings := do
  let fields ← value.asRecord
  let backend ← Decode.fieldOr fields "backend" .local Backend.ofJson
  let bucket ← Decode.optional fields "bucket" Json.asString
  let path ← Decode.optional fields "path" Json.asString
  let keyPrefix ← Decode.optional fields "prefix" Json.asString
  let region ← Decode.optional fields "region" Json.asString
  return { backend, bucket, keyPrefix, region, path }

end StateSettings

namespace ProviderSettings

def toJson (settings : ProviderSettings) : Json :=
  .object [
    ("endpoint", .ofOption .string settings.endpoint),
    ("timeout_secs", .natural settings.timeoutSecs)]

def ofJson (value : Json) : Decode ProviderSettings := do
  let fields ← value.asRecord
  let endpoint ← Decode.optional fields "endpoint" Json.asString
  let timeoutSecs ← Decode.fieldOr fields "timeout_secs" 30 (Json.asUnsigned 64)
  return { endpoint, timeoutSecs }

end ProviderSettings

namespace ApplySettings

def toJson (settings : ApplySettings) : Json :=
  .object [
    ("concurrency", .natural settings.concurrency),
    ("max_attempts", .natural settings.maxAttempts),
    ("initial_backoff_ms", .natural settings.initialBackoffMs),
    ("max_backoff_ms", .natural settings.maxBackoffMs),
    ("jitter", .number (.double settings.jitter))]

def ofJson (value : Json) : Decode ApplySettings := do
  let defaults : ApplySettings := {}
  let fields ← value.asRecord
  let concurrency ← Decode.fieldOr fields "concurrency" defaults.concurrency (Json.asUnsigned 64)
  let initialBackoffMs ←
    Decode.fieldOr fields "initial_backoff_ms" defaults.initialBackoffMs (Json.asUnsigned 64)
  let jitter ← Decode.fieldOr fields "jitter" defaults.jitter Json.asDouble
  let maxAttempts ← Decode.fieldOr fields "max_attempts" defaults.maxAttempts (Json.asUnsigned 32)
  let maxBackoffMs ←
    Decode.fieldOr fields "max_backoff_ms" defaults.maxBackoffMs (Json.asUnsigned 64)
  return { concurrency, maxAttempts, initialBackoffMs, maxBackoffMs, jitter }

end ApplySettings

end Converge
