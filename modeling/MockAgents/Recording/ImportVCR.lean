import MockAgents.Recording.Encode
import MockAgents.Recording.Load
/-!
# Importing vcrpy cassettes

`internal/recording/import_vcr.go`, from the YAML nodes on.  Parsing YAML and URLs, `gzip`, the
case mappings and `json.Marshal` of a decoded mapping are parameters.
-/

namespace MockAgents.Recording

open Lib Lib.Utf8

def maxDecompressedBody : Nat := maxCassetteLine

/-! ## Bodies -/

/-- A value of a decoded mapping. -/
inductive YamlValue (V : Type) where
  | text (s : Bytes)
  | other (v : V)

/-- The node of a body; a mapping may fail to decode. -/
inductive YamlBody (V : Type) where
  | absent
  | null
  | scalar (value : Bytes)
  | mapping (entries : Option (List (Bytes × YamlValue V)))
  | other

inductive BodyError where
  | decodingMapping
  | stringNotScalar
  | base64NotScalar
  | base64
  | gzip
  | gunzip
  | tooLarge
  | reencoding
deriving DecidableEq, Repr

/-- `vcrBody`; a body with an error is skipped. -/
structure VcrBody where
  raw : Bytes := []
  present : Bool := false
  err : Option BodyError := none

/-- What a `gzip` stream yields, and whether it breaks off after that. -/
structure Unzipped where
  data : Bytes
  broken : Bool

structure ImportEnv (V : Type) where
  toUpper : Bytes → Bytes
  toLower : Bytes → Bytes
  /-- the path of a parsed URL -/
  urlPath : Bytes → Option Bytes
  /-- `none` without a valid header -/
  gunzip : Bytes → Option Unzipped
  marshalMap : List (Bytes × YamlValue V) → Option Bytes
  printable : Char → Bool

variable {V : Type} (env : ImportEnv V)

/-- `decodeBase64Body`: only a body that is unzipped is limited. -/
def decodeBase64Body (enc : Bytes) : Except BodyError Bytes :=
  match Base64.decodeString (Strings.trimSpace enc) with
  | none => .error .base64
  | some data =>
    if [0x1f, 0x8b].isPrefixOf data then
      match env.gunzip data with
      | none => .error .gzip
      | some stream =>
        if stream.broken && decide (stream.data.length < maxDecompressedBody + 1) then .error .gunzip
        else if maxDecompressedBody < (stream.data.take (maxDecompressedBody + 1)).length then .error .tooLarge
        else .ok (stream.data.take (maxDecompressedBody + 1))
    else .ok data

/-- `vcrBody.UnmarshalYAML`. -/
def unmarshalBody : YamlBody V → VcrBody
  | .absent | .null | .other => {}
  | .scalar value => { raw := value, present := true }
  | .mapping none => { err := some .decodingMapping }
  | .mapping (some m) =>
    match m.lookup (bytes "string") with
    | some (.text s) => { raw := s, present := true }
    | some (.other _) => { err := some .stringNotScalar }
    | none =>
      match m.lookup (bytes "base64_string") with
      | some (.text s) =>
        match decodeBase64Body env s with
        | .error err => { err := some err }
        | .ok raw => { raw := raw, present := true }
      | some (.other _) => { err := some .base64NotScalar }
      | none =>
        match env.marshalMap m with
        | none => { err := some .reencoding }
        | some raw => { raw := raw, present := true }

def bodyToRawMessage (b : VcrBody) : Bytes × BodyEncoding :=
  if !b.present || b.raw.isEmpty then ([], .json) else encodeBody env.printable b.raw

/-! ## Headers -/

def sensitiveHeaderSubstrings : List Bytes :=
  ["auth", "api-key", "api_key", "apikey", "token", "secret", "cookie", "password"].map bytes

def sensitiveHeaderExact : List Bytes := ["openai-organization", "openai-project"].map bytes

def framingHeaders : List Bytes :=
  ["content-length", "content-encoding", "transfer-encoding", "connection", "keep-alive"].map bytes

def isSensitiveHeader (name : Bytes) : Bool :=
  let l := env.toLower name
  sensitiveHeaderExact.contains l || sensitiveHeaderSubstrings.any (Strings.contains l ·)

def isFramingHeader (name : Bytes) : Bool := framingHeaders.contains (env.toLower name)

def flattenHeaders (h : List (Bytes × List Bytes)) : List (Bytes × Bytes) :=
  h.filterMap fun e =>
    if isSensitiveHeader env e.1 || isFramingHeader env e.1 then none else e.2.head?.map fun v => (e.1, v)

/-! ## Interactions -/

structure VcrInteraction (V : Type) where
  method : Bytes
  uri : Bytes
  requestBody : YamlBody V
  requestHeaders : List (Bytes × List Bytes)
  statusCode : Int
  responseHeaders : List (Bytes × List Bytes)
  responseBody : YamlBody V

def llmPaths : List Bytes :=
  ["/v1/chat/completions", "/v1/messages", "/v1/embeddings", "/v1/responses", "/v1/moderations"].map bytes

/-- Why the interaction with a number is left out. -/
inductive SkipReason where
  | badURI (i : Nat) (uri : Bytes)
  | requestBody (i : Nat) (err : BodyError)
  | responseBody (i : Nat) (err : BodyError)
  | notLLM (i : Nat) (method path : Bytes)
  | nonJSONRequest (i : Nat)
deriving DecidableEq, Repr

/-- `uriToPath`: the path has to be absolute. -/
def uriToPath (uri : Bytes) : Option Bytes :=
  (env.urlPath (Strings.trimSpace uri)).bind fun path => if (bytes "/").isPrefixOf path then some path else none

def statusOr (code default : Int) : Int := if code = 0 then default else code

def importOne (all : Bool) (i : Nat) (vi : VcrInteraction V) : Except SkipReason Interaction :=
  let method := env.toUpper (Strings.trimSpace vi.method)
  let request := unmarshalBody env vi.requestBody
  let response := unmarshalBody env vi.responseBody
  match uriToPath env vi.uri with
  | none => .error (.badURI i vi.uri)
  | some path =>
    match request.err, response.err with
    | some err, _ => .error (.requestBody i err)
    | none, some err => .error (.responseBody i err)
    | none, none =>
      if !all && (method != bytes "POST" || !(llmPaths.contains path)) then .error (.notLLM i method path)
      else if request.present && !(Json.valid request.raw) then .error (.nonJSONRequest i)
      else
        let req := bodyToRawMessage env request
        let resp := bodyToRawMessage env response
        .ok
          { method := method
            path := path
            requestHeaders := flattenHeaders env vi.requestHeaders
            requestBody := req.1
            requestBodyEncoding := req.2
            responseStatus := statusOr vi.statusCode 200
            responseHeaders := flattenHeaders env vi.responseHeaders
            responseBody := resp.1
            responseBodyEncoding := resp.2 }

/-- What the YAML decoder makes of the input. -/
inductive VcrDocument (V : Type) where
  | empty
  | malformed
  | cassette (interactions : List (VcrInteraction V))

def importFrom (all : Bool) : Nat → List (VcrInteraction V) → List Interaction × List SkipReason
  | _, [] => ([], [])
  | i, vi :: rest =>
    let imported := importFrom all (i + 1) rest
    match importOne env all i vi with
    | .error reason => (imported.1, reason :: imported.2)
    | .ok it => (it :: imported.1, imported.2)

/-- `ImportVCR`: the interactions and the reasons for those it skipped; `none` for a malformed
document. -/
def importVCR (all : Bool) : VcrDocument V → Option (List Interaction × List SkipReason)
  | .empty => some ([], [])
  | .malformed => none
  | .cassette interactions => some (importFrom env all 0 interactions)

end MockAgents.Recording
