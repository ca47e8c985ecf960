import Converge.Http.Address
import Converge.Http.HostName
import Converge.Http.Percent

/-!
# URLs

Absolute URLs: a scheme, an authority, a path, a query and a fragment. Schemes of the web are
special: they always have a host, and a backslash separates like a stroke. A URL without a stroke
after its scheme has an opaque path, to which nothing can be added.
-/

namespace Converge

/-- Why a text is no URL. -/
inductive UrlFault where
  | emptyHost
  | invalidName
  | invalidPort
  | invalidFourBytes
  | invalidEightGroups
  | invalidCharacter
  | noScheme
deriving DecidableEq, Repr

/-- The host of a URL. -/
inductive UrlHost where
  | name (text : String)
  | fourBytes (address : Nat)
  | eightGroups (groups : List Nat)
deriving DecidableEq, Repr

/-- Where the server of a URL is. -/
structure Authority where
  user : String := ""
  password : String := ""
  host : UrlHost
  port : Option Nat := none
deriving DecidableEq, Repr

/-- The path of a URL. -/
inductive UrlPath where
  | flat (text : String)
  | segments (parts : List String)
deriving DecidableEq, Repr

/-- A URL. Its parts are encoded. -/
structure Url where
  scheme : String
  authority : Option Authority := none
  path : UrlPath
  query : Option String := none
  fragment : Option String := none
deriving DecidableEq, Repr

namespace UrlFault

def text : UrlFault → String
  | .emptyHost => "empty host"
  | .invalidName => "invalid international domain name"
  | .invalidPort => "invalid port number"
  | .invalidFourBytes => "invalid IPv4 address"
  | .invalidEightGroups => "invalid IPv6 address"
  | .invalidCharacter => "invalid domain character"
  | .noScheme => "relative URL without a base"

end UrlFault

namespace Url

/-! ## Schemes -/

/-- The ports of special schemes. -/
def defaultPorts : List (String × Nat) :=
  [("http", 80), ("https", 443), ("ws", 80), ("wss", 443), ("ftp", 21)]

def defaultPort? (scheme : String) : Option Nat := defaultPorts.lookup scheme

/-- Whether a scheme is one of the web. -/
def isSpecial (scheme : String) : Bool := scheme = "file" || (defaultPort? scheme).isSome

/-- Splits the scheme off the front. -/
def splitScheme? (cs : List Char) : Option (String × List Char) :=
  let isPart (c : Char) : Bool := c.isAlphanum || ['+', '-', '.'].contains c
  match cs.takeWhile isPart, cs.dropWhile isPart with
  | first :: rest, ':' :: after =>
    if first.isAlpha then some ((String.ofList (first :: rest)).toLower, after) else none
  | _, _ => none

/-! ## Hosts -/

def readEight (cs : List Char) : Except UrlFault UrlHost :=
  match cs.getLast? with
  | some ']' =>
    match Address.readEight? (String.ofList (cs.drop 1).dropLast) with
    | some groups => .ok (.eightGroups groups)
    | none => .error .invalidEightGroups
  | _ => .error .invalidEightGroups

/-- Characters that no name may hold. -/
def isForbidden (c : Char) : Bool :=
  c.toNat ≤ 0x20 || c.toNat = 0x7F ||
  ['"', '#', '%', '/', ':', '<', '>', '?', '@', '[', '\\', ']', '^', '\x60', '\x7b', '|', '\x7d'].contains c

/-- The host of a special URL. -/
def readHost (cs : List Char) : Except UrlFault UrlHost :=
  if cs.head? = some '[' then readEight cs
  else
    let decoded? := String.fromUTF8? (ByteArray.mk (Percent.decode cs).toArray)
    match decoded?.bind fun name => HostName.encode? name.toList with
    | none => .error .invalidName
    | some name =>
      if name.toList.any isForbidden then .error .invalidName
      else if name.isEmpty then .error .emptyHost
      else if Address.endsInNumber name then
        match Address.readFour? name with
        | some address => .ok (.fourBytes address)
        | none => .error .invalidFourBytes
      else .ok (.name name)

/-- Characters that the host of a URL that is not special may not hold. -/
def isForbiddenOpaque (c : Char) : Bool :=
  ['\x00', '\t', '\n', '\r', ' ', '#', '/', ':', '<', '>', '?', '@', '[', '\\', ']', '^', '|'].contains c

/-- The host of a URL that is not special. -/
def readOpaqueHost (cs : List Char) : Except UrlFault UrlHost :=
  if cs.head? = some '[' then readEight cs
  else if cs.any isForbiddenOpaque then .error .invalidCharacter
  else .ok (.name (Percent.encode Percent.inOpaque cs))

/-! ## Authorities -/

/-- Whether a character ends the authority. -/
def endsAuthority (special : Bool) (c : Char) : Bool :=
  c = '/' || c = '?' || c = '#' || (special && c = '\\')

/-- The text before the last at sign of an authority, and the text after it. -/
def splitUser (cs : List Char) : Option (List Char × List Char) :=
  let reversed := cs.reverse
  match reversed.dropWhile (· != '@') with
  | [] => none
  | _ :: front => some (front.reverse, (reversed.takeWhile (· != '@')).reverse)

/-- Splits the host off the front of what follows the user: up to a colon outside of brackets. -/
def splitHost : (inBrackets : Bool) → List Char → List Char × List Char
  | _, [] => ([], [])
  | inBrackets, c :: rest =>
    if c = ':' && !inBrackets then ([], c :: rest)
    else
      let inBrackets := if c = '[' then true else if c = ']' then false else inBrackets
      let (host, after) := splitHost inBrackets rest
      (c :: host, after)

/-- The port after a host: nothing, or a colon and digits. -/
def readPort (scheme : String) : List Char → Except UrlFault (Option Nat)
  | ':' :: digits =>
    if digits.isEmpty then .ok none
    else
      match Text.readDigits? 10 digits with
      | some port =>
        if 65535 < port then .error .invalidPort
        else .ok (if defaultPort? scheme = some port then none else some port)
      | none => .error .invalidPort
  | _ => .ok none

/-- Reads an authority. A special URL has to have a host, and so has one with a user or a port. -/
def readAuthority (scheme : String) (cs : List Char) : Except UrlFault Authority := do
  let special := isSpecial scheme
  let (userInfo, rest) := (splitUser cs).getD ([], cs)
  let user := userInfo.takeWhile (· != ':')
  let password := (userInfo.dropWhile (· != ':')).drop 1
  let (host, port) := splitHost false rest
  if host.isEmpty && (special || (splitUser cs).isSome || port.head? = some ':') then
    throw .emptyHost
  let host ← if special then readHost host else readOpaqueHost host
  return {
    user := Percent.encode Percent.inUserInfo user
    password := Percent.encode Percent.inUserInfo password
    host
    port := ← readPort scheme port }

/-! ## Paths -/

/-- Whether a segment stands for the segment before it, or for nothing. -/
def isDouble (segment : List Char) : Bool :=
  ["..", ".%2e", "%2e.", "%2e%2e"].contains (String.ofList segment).toLower

def isSingle (segment : List Char) : Bool := [".", "%2e"].contains (String.ofList segment).toLower

/-- Splits a path at its strokes. -/
def splitSegments (special : Bool) : List Char → List (List Char)
  | [] => [[]]
  | c :: rest =>
    let following := splitSegments special rest
    if c = '/' || (special && c = '\\') then [] :: following
    else
      match following with
      | first :: others => (c :: first) :: others
      | [] => [[c]]

/-- The segments that a path leads along. A segment that stands for no other leaves an empty one
behind at the end. -/
def walk (kept : List String) : List (List Char) → List String
  | [] => kept
  | segment :: rest =>
    let ending := if rest.isEmpty then [""] else []
    if isDouble segment then walk (kept.dropLast ++ ending) rest
    else if isSingle segment then walk (kept ++ ending) rest
    else walk (kept ++ [Percent.encode Percent.inPath segment]) rest

/-- Reads the path after an authority. -/
def readPath (special : Bool) (cs : List Char) : UrlPath :=
  match cs with
  | [] => .segments (if special then [""] else [])
  | '/' :: rest => .segments (walk [] (splitSegments special rest))
  | '\\' :: rest =>
    .segments (walk [] (splitSegments special (if special then rest else cs)))
  | _ => .segments (walk [] (splitSegments special cs))

/-! ## Reading -/

/-- Splits a path, a query and a fragment from one another. -/
def splitTail (cs : List Char) : List Char × Option (List Char) × Option (List Char) :=
  let front := cs.takeWhile (· != '#')
  let fragment := cs.dropWhile (· != '#')
  let path := front.takeWhile (· != '?')
  let query := front.dropWhile (· != '?')
  (path, if query.isEmpty then none else some (query.drop 1),
    if fragment.isEmpty then none else some (fragment.drop 1))

/-- Control characters and blanks, which do not count at the ends. -/
def isOuter (c : Char) : Bool := c.toNat ≤ 0x20

/-- The text of a URL without what does not count. -/
def clean (text : String) : List Char :=
  let trimmed := ((text.toList.dropWhile isOuter).reverse.dropWhile isOuter).reverse
  trimmed.filter fun c => c != '\t' && c != '\n' && c != '\r'

/-- The authority and path of a URL, given what follows the colon of its scheme. -/
def readHierarchy (scheme : String) (cs : List Char) :
    Except UrlFault (Option Authority × UrlPath) := do
  let special := isSpecial scheme
  let isStroke (c : Char) : Bool := c = '/' || (special && c = '\\')
  let hasAuthority := (special && scheme != "file") || (cs.take 2).countP isStroke = 2
  if hasAuthority then
    let rest := if special && scheme != "file" then cs.dropWhile isStroke else cs.drop 2
    let authority := rest.takeWhile (!endsAuthority special ·)
    let path := readPath special (rest.drop authority.length)
    if scheme = "file" && authority.isEmpty then
      return (some { host := .name "" }, path)
    return (some (← readAuthority scheme authority), path)
  else if scheme = "file" then return (some { host := .name "" }, readPath special cs)
  else if cs.head? = some '/' then return (none, readPath special cs)
  else return (none, .flat (Percent.encode Percent.inOpaque cs))

/-- Reads a URL. -/
def parse (text : String) : Except UrlFault Url := do
  match splitScheme? (clean text) with
  | none => throw .noScheme
  | some (scheme, rest) =>
    let (front, query, fragment) := splitTail rest
    let (authority, path) ← readHierarchy scheme front
    return {
      scheme, authority, path
      query := query.map (Percent.encode (Percent.inQuery (isSpecial scheme)))
      fragment := fragment.map (Percent.encode Percent.inFragment) }

/-! ## Writing -/

def renderHost : UrlHost → String
  | .name text => text
  | .fourBytes address => Address.renderFour address
  | .eightGroups groups => "[" ++ Address.renderEight groups ++ "]"

def renderAuthority (a : Authority) : String :=
  let password := if a.password.isEmpty then "" else ":" ++ a.password
  let user := a.user ++ password
  let port := (a.port.map fun port => s!":{port}").getD ""
  "//" ++ (if user.isEmpty then "" else user ++ "@") ++ renderHost a.host ++ port

def renderPath : UrlPath → String
  | .flat text => text
  | .segments parts => String.join (parts.map ("/" ++ ·))

/-- The text of a URL. -/
def render (url : Url) : String :=
  url.scheme ++ ":" ++ (url.authority.map renderAuthority).getD "" ++ renderPath url.path ++
    (url.query.map ("?" ++ ·)).getD "" ++ (url.fragment.map ("#" ++ ·)).getD ""

/-! ## Adding to a path -/

/-- A segment as it is added to a path. -/
def encodeSegment (special : Bool) (segment : String) : String :=
  Percent.encode (Percent.inSegment special)
    (segment.toList.filter fun c => c != '\t' && c != '\n' && c != '\r')

/-- Segments with more of them after it. An empty one at the end gives way. Segments that stand for
no other are left out. -/
def addSegments (special : Bool) (parts segments : List String) : List String :=
  let kept := if parts.getLast? = some "" then parts.dropLast else parts
  kept ++ (segments.filter fun s => s != "." && s != "..").map (encodeSegment special)

/-- The URL with segments added to its path, if its path is not opaque. -/
def push? (url : Url) (segments : List String) : Option Url :=
  match url.path with
  | .flat _ => none
  | .segments parts =>
    some { url with path := .segments (addSegments (isSpecial url.scheme) parts segments) }

end Url

end Converge
