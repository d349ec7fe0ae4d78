import MockAgents.Lib.JsonValue
import MockAgents.Recording.Cassette
import MockAgents.Storage.Sanitize
/-!
# Redaction

`internal/recording/redact.go`: the stored copy of an interaction has its secrets masked.  The
regexp package and the JSON decoder and encoder are parameters.
-/

namespace MockAgents.Recording

open Lib Lib.Utf8 Storage

/-- The packages a redaction calls.  `replaceAll` puts stars for the matches of a pattern,
`decode` keeps numbers as they are written, and `encode` leaves `<`, `>` and `&` and gives no
final newline. -/
structure RedactEnv where
  replaceAll : Bytes → Bytes → Bytes
  decode : Bytes → Option (JsonValue Bytes)
  encode : JsonValue Bytes → Option Bytes

def builtinSecretPatterns : List Bytes :=
  [bytes "AKIA[0-9A-Z]\x7b16\x7d", bytes "ghp_[A-Za-z0-9]\x7b36\x7d",
    bytes "gh[osu]_[A-Za-z0-9]\x7b36\x7d", bytes "github_pat_[A-Za-z0-9_]\x7b22,\x7d",
    bytes "xox[baprs]-[A-Za-z0-9-]\x7b10,\x7d", bytes "AIza[0-9A-Za-z\\-_]\x7b35\x7d",
    bytes "eyJ[A-Za-z0-9_-]\x7b8,\x7d\\.[A-Za-z0-9_-]\x7b8,\x7d\\.[A-Za-z0-9_-]\x7b8,\x7d"]

/-- A redactor with the patterns it was given. -/
structure Redactor where
  patterns : List Bytes

section
variable (env : RedactEnv) (r : Redactor)

/-! ## Bodies -/

def Redactor.redactString (s : Bytes) : Bytes :=
  (builtinSecretPatterns ++ r.patterns).foldl (fun out re => env.replaceAll re out) (sanitizeBody s)

mutual

def Redactor.redactJSONValue : JsonValue Bytes → JsonValue Bytes
  | .string s => .string (r.redactString env s)
  | .array items => .array (Redactor.redactItems items)
  | .object members => .object (Redactor.redactMembers members)
  | .null => .null
  | .bool b => .bool b
  | .number x => .number x

def Redactor.redactItems : List (JsonValue Bytes) → List (JsonValue Bytes)
  | [] => []
  | v :: items => Redactor.redactJSONValue v :: Redactor.redactItems items

def Redactor.redactMembers : List (Bytes × JsonValue Bytes) → List (Bytes × JsonValue Bytes)
  | [] => []
  | (key, v) :: members => (key, Redactor.redactJSONValue v) :: Redactor.redactMembers members

end

/-- `redactBody`: a body without a secret stays as it is, and one that is not JSON is masked as
a text. -/
def Redactor.redactBody (b : Bytes) : Bytes :=
  if b = [] then b
  else if r.redactString env b = b then b
  else
    ((env.decode b).bind fun v => env.encode (r.redactJSONValue env v)).getD (r.redactString env b)

/-! ## Streams -/

def maxRecordedSSEFrameBytes : Nat := 1048576

/-- The length of the first frame, with the blank line that ends it. -/
def frameLen (pending : Bytes) : Option Nat :=
  match Strings.index pending (bytes "\n\n"), Strings.index pending (bytes "\r\n\r\n") with
  | none, none => none
  | some lf, none => some (lf + 2)
  | none, some crlf => some (crlf + 4)
  | some lf, some crlf => if crlf < lf then some (crlf + 4) else some (lf + 2)

def frameExceeds (maxBytes : Nat) : Bytes := bytes s!"SSE frame exceeds {maxBytes} bytes"

def takeFrames (maxBytes : Nat) (delayMs : Int) : Nat → Bytes → Except Bytes (List StreamEvent × Bytes)
  | 0, pending => .ok ([], pending)
  | fuel + 1, pending =>
    match frameLen pending with
    | none => .ok ([], pending)
    | some n =>
      if maxBytes < n then .error (frameExceeds maxBytes)
      else
        (takeFrames maxBytes delayMs fuel (pending.drop n)).map fun r =>
          (⟨delayMs, pending.take n⟩ :: r.1, r.2)

def assembleFrom (maxBytes : Nat) : Bytes → List StreamEvent → Except Bytes (List StreamEvent)
  | pending, [] =>
    if pending = [] then .ok [] else .error (bytes "incomplete SSE frame at end of stream")
  | pending, chunk :: chunks =>
    let received := pending ++ chunk.data
    (takeFrames maxBytes chunk.delayMs received.length received).bind fun r =>
      if maxBytes < r.2.length then .error (frameExceeds maxBytes)
      else (assembleFrom maxBytes r.2 chunks).map (r.1 ++ ·)

def assembleSSEFrames (chunks : List StreamEvent) (maxBytes : Nat) : Except Bytes (List StreamEvent) :=
  if maxBytes = 0 then .error (bytes "invalid SSE frame size limit") else assembleFrom maxBytes [] chunks

/-- A line of a frame: a JSON payload is redacted, another has its prefixes masked. -/
def Redactor.redactLine (line : Bytes) : Bytes :=
  let payload := Strings.trimPrefix line (bytes "data: ")
  if payload ≠ [] ∧ Json.valid payload then
    line.take (line.length - payload.length) ++ r.redactBody env payload
  else sanitizeBody line

def Redactor.redactStreamData (s : Bytes) : Bytes :=
  if s = [] then s
  else
    let separator := if Strings.contains s (bytes "\r\n") then bytes "\r\n" else bytes "\n"
    Strings.join ((Strings.split s separator).map (r.redactLine env)) separator

/-! ## Interactions -/

def Redactor.redactHeaderValues (h : List (Bytes × Bytes)) : List (Bytes × Bytes) :=
  h.map fun e => (e.1, r.redactString env e.2)

def Redactor.apply (it : Interaction) : Except Bytes Interaction :=
  let masked : Interaction :=
    { it with
      requestBody := r.redactBody env it.requestBody
      responseBody := r.redactBody env it.responseBody
      requestHeaders := r.redactHeaderValues env it.requestHeaders
      responseHeaders := r.redactHeaderValues env it.responseHeaders }
  if it.streaming ∧ it.streamEvents ≠ [] then
    match assembleSSEFrames it.streamEvents maxRecordedSSEFrameBytes with
    | .error err => .error (bytes "redacting recorded SSE: " ++ err)
    | .ok frames =>
      .ok { masked with streamEvents := frames.map fun f => { f with data := r.redactStreamData env f.data } }
  else .ok masked

end

end MockAgents.Recording
