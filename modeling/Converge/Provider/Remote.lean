import Converge.Host.Basic
import Converge.Http.Status
import Converge.Http.Url
import Converge.Json.Reader
import Converge.Json.Writer
import Converge.Provider.Basic
import Converge.Stack.Settings

/-!
# Remote provider

A provider that is a service spoken to over HTTP. Every call is one request, on a path of the
resource's kind and id, and the status of the answer says whether the call succeeded, whether it may
succeed later, and whether the resource exists at all.
-/

namespace Converge

/-- A service that is a provider. -/
structure Remote where
  endpoint : Url
  /-- What the service is told to let the caller in. -/
  token : Option String
  timeoutSecs : Nat
deriving DecidableEq, Repr

namespace Remote

/-- The name of the provider in texts. -/
def providerName : String := "http"

/-- The variable of the environment that holds the token. -/
def tokenVariable : String := "STACKPLAN_PROVIDER_TOKEN"

/-- The service that a declaration names. -/
def ofSettings (settings : ProviderSettings) (token : Option String) : Except ConfigError Remote :=
  let failure (message : String) : ConfigError := .validation message (some "provider.endpoint")
  match settings.endpoint with
  | none => .error (failure "A provider endpoint is required to apply")
  | some endpoint =>
    match Url.parse endpoint with
    | .ok url => .ok { endpoint := url, token, timeoutSecs := settings.timeoutSecs }
    | .error fault => .error (failure s!"Invalid provider endpoint '{endpoint}': {fault.text}")

/-! ## Requests -/

/-- The URL of a resource, or of all resources of a kind. -/
def url (r : Remote) (kind : Kind) (id : Option String) : Except ProviderError Url :=
  match r.endpoint.push? (["resources", kind.name] ++ id.toList) with
  | some url => .ok url
  | none =>
    let endpoint := r.endpoint.render
    .error (.permanent "endpoint" s!"Endpoint '{endpoint}' cannot take a path")

def headers (r : Remote) : List (String × String) :=
  ("content-type", "application/json") ::
    r.token.toList.map fun token => ("authorization", s!"Bearer {token}")

/-- The body that carries attributes. -/
def bodyOf (attributes : Attributes) : String :=
  (Json.object [("attributes", .ofAttributes attributes)]).compact

def request (r : Remote) (method : String) (url : Url) (body : Option String) : HttpRequest :=
  { method, url := url.render, headers := r.headers, body, timeoutSecs := r.timeoutSecs }

/-! ## Answers -/

/-- What a service says about a failure. -/
structure Complaint where
  code : Option String := none
  message : Option String := none
deriving DecidableEq, Repr

def Complaint.ofJson (value : Json) : Decode Complaint := do
  let fields ← value.asRecord
  let code ← Decode.optional fields "code" Json.asString
  let message ← Decode.optional fields "message" Json.asString
  return { code, message }

/-- What the body of an answer says about a failure; nothing if it has another form. -/
def complaintOf (body : String) : Complaint :=
  match (Json.read? body).map Complaint.ofJson with
  | some (.ok complaint) => complaint
  | _ => {}

/-- The failure that an answer stands for. The body may name a code and a message of its own; with the
status for what is not found, the code is the one for that. -/
def classify (status : Nat) (body : String) : ProviderError :=
  let complaint := complaintOf body
  let code := complaint.code.getD s!"http_{status}"
  let message := complaint.message.getD (if body.isEmpty then HttpStatus.text status else body)
  if status = HttpStatus.notFound then .notFound message
  else if HttpStatus.mayPass status then .transient code message
  else .permanent code message

/-- The failure of a call that was answered with success and a body that cannot be read. -/
def unreadable : ProviderError :=
  .permanent "invalid_response" "Failed to parse response: error decoding response body"

/-- What the body of an answer to a success holds. -/
def readBody {α : Type} (decode : Json → Decode α) (body : String) : Except ProviderError α :=
  match (Json.read? body).map decode with
  | some (.ok value) => .ok value
  | _ => .error unreadable

/-- The outputs in the answer to an update. -/
def outputsOf (value : Json) : Decode Outputs := do
  Decode.fieldOr (← value.asRecord) "outputs" .empty Json.asAttributes

/-- What came of an exchange: the body, if the status is one of success. -/
def bodyOfResponse : Except String HttpResponse → Except ProviderError String
  | .error cause => .error (.transient "network" s!"Request failed: {cause}")
  | .ok response =>
    if HttpStatus.isSuccess response.status then .ok response.body
    else .error (classify response.status response.body)

/-! ## Calls -/

/-- Sends a request and reads the answer. -/
def call {α : Type} (r : Remote) (method : String) (kind : Kind) (id : Option String)
    (body : Option String) (read : String → Except ProviderError α) :
    Program Host.calls (Reply α) :=
  match r.url kind id with
  | .error cause => return .failed cause
  | .ok url => do
    let response ← Host.exchange (r.request method url body)
    return .ofExcept (bodyOfResponse response >>= read)

/-- Answers the calls of a provider. -/
def answer (r : Remote) : (request : Provider.Request) → Program Host.calls (Provider.Answer request)
  | .create kind attributes =>
    r.call "POST" kind none (some (bodyOf attributes)) (readBody CreatedResource.ofJson)
  | .update kind id attributes =>
    r.call "PUT" kind (some id) (some (bodyOf attributes)) (readBody outputsOf)
  | .delete kind id => r.call "DELETE" kind (some id) none fun _ => .ok ()
  | .pause milliseconds => Host.pause milliseconds

end Remote

end Converge
