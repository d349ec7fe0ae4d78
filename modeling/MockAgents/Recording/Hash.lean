import MockAgents.Recording.Redact
/-!
# Keys of requests

`HashPath` and `HashRequest` of `cassette.go` and the keys of `matcher.go`: what replay looks a
request up by.  SHA-256 and the functions of `encoding/json`, `net/url` and `net/http` are
parameters.
-/

namespace MockAgents.Recording

open Lib Lib.Utf8 Lib.Strconv

/-- The packages the recorder calls.  Numbers of decoded bodies are in `N`; `query` gives the
values of a query and `encodeQuery` is `Values.Encode`, which sorts by key; `compact` is how the
encoder of a line writes a stored body. -/
structure Env (N : Type) extends RedactEnv where
  sha256 : Bytes → Bytes
  unmarshal : Bytes → Option (JsonValue N)
  marshalString : Bytes → Bytes
  marshalNumber : N → Bytes
  query : Bytes → List (Bytes × List Bytes)
  encodeQuery : List (Bytes × List Bytes) → Bytes
  toLower : Bytes → Bytes
  canonicalHeaderKey : Bytes → Bytes
  compact : Bytes → Bytes
  printable : Char → Bool

/-- A request that reaches the proxy or the replay server.  The server refuses a method that is
not a token. -/
structure ClientRequest where
  method : Bytes
  path : Bytes
  rawQuery : Bytes
  headers : List (Bytes × Bytes)
  body : Bytes
  method_token : ∀ b ∈ method, 32 < b ∧ b < 127

variable {N : Type}

/-! ## Paths -/

def credentialQueryParams : List Bytes :=
  [bytes "key", bytes "api_key", bytes "apikey", bytes "access_token", bytes "token"]

def Env.plainQuery (env : Env N) (rawQuery : Bytes) : List (Bytes × List Bytes) :=
  (env.query rawQuery).filter fun e => !credentialQueryParams.contains (env.toLower e.1)

def Env.hashPath (env : Env N) (r : ClientRequest) : Bytes :=
  let q := env.plainQuery r.rawQuery
  if q = [] then r.path
  else
    r.path ++ 63 :: env.encodeQuery (q.map fun e => (e.1, e.2.mergeSort fun a b => decide (a ≤ b)))

/-! ## Bodies -/

section
variable (env : Env N)

/-- The members of an object by their keys in order, each with the text of its value. -/
def Env.writeMembers (members : List (Bytes × Bytes)) : Bytes :=
  let keys := (members.map (·.1)).dedup.mergeSort fun a b => decide (a ≤ b)
  let texts := keys.map fun k => env.marshalString k ++ 58 :: (members.lookup k).getD []
  bytes "\x7b" ++ Strings.join texts (bytes ",") ++ bytes "\x7d"

mutual

def Env.canonicalJSON : JsonValue N → Bytes
  | .object members => env.writeMembers (Env.canonicalMembers members)
  | .array items => bytes "[" ++ Strings.join (Env.canonicalItems items) (bytes ",") ++ bytes "]"
  | .null => bytes "null"
  | .bool b => bytes (if b then "true" else "false")
  | .number x => env.marshalNumber x
  | .string s => env.marshalString s

def Env.canonicalItems : List (JsonValue N) → List Bytes
  | [] => []
  | v :: items => Env.canonicalJSON v :: Env.canonicalItems items

def Env.canonicalMembers : List (Bytes × JsonValue N) → List (Bytes × Bytes)
  | [] => []
  | (key, v) :: members => (key, Env.canonicalJSON v) :: Env.canonicalMembers members

end

def Env.decoded (body : Bytes) : Option (JsonValue N) := if body = [] then none else env.unmarshal body

def Env.canonicalBody (body : Bytes) : Bytes := ((env.decoded body).map env.canonicalJSON).getD body

/-- `hex.EncodeToString`. -/
def hexEncode (b : Bytes) : Bytes :=
  encode (b.flatMap fun x => [hexDigit (x.toNat / 16), hexDigit (x.toNat % 16)])

/-- A path and a body as they are written to the hash, each after a newline. -/
def framed (path canonical : Bytes) : Bytes := 10 :: path ++ 10 :: canonical

def Env.hashRequest (method path body : Bytes) : Bytes :=
  hexEncode (env.sha256 (method ++ framed path (env.canonicalBody body)))

end

/-! ## The matcher -/

/-- A matcher with the fields it ignores; a nil matcher ignores none. -/
structure Matcher where
  ignoreFields : List Bytes

namespace Matcher

variable (env : Env N) (m : Matcher)

def active : Bool := !m.ignoreFields.isEmpty

def strip (body : Bytes) : Bytes :=
  if m.active then
    match env.decoded body with
    | some (.object obj) =>
      env.canonicalJSON (.object (obj.filter fun e => !m.ignoreFields.contains e.1))
    | _ => body
  else body

def key (method path body : Bytes) : Bytes := env.hashRequest method path (m.strip env body)

def canonical (body : Bytes) : Bytes := env.canonicalBody (m.strip env body)

end Matcher

end MockAgents.Recording
