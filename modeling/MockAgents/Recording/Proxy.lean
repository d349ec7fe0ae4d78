import MockAgents.Recording.Hash
/-!
# The recording proxy

`internal/recording/proxy.go`: what a request through the proxy adds to the cassette.  What the
upstream answers is the environment's choice; the copy of the response to the client is left out.
-/

namespace MockAgents.Recording

open Lib Lib.Utf8

def maxRequestBodyBytes : Nat := 10485760

/-- How the loop over the chunks of a stream ends. -/
inductive StreamEnd where
  | finished
  | upstreamErrored
  | clientAborted
deriving DecidableEq

/-- An answer of the upstream: its body if it can be read to the end, and the chunks that reach
the client if it is a stream. -/
structure Answer where
  status : Int
  headers : List (Bytes × Bytes)
  body : Option Bytes
  events : List StreamEvent
  ending : StreamEnd

/-- The settings of a `Proxy` that decide what is recorded. -/
structure Proxy where
  redactor : Option Redactor
  skipRecordOnError : Bool

def defaultCaptureHeaders : List Bytes :=
  [bytes "Content-Type", bytes "Accept", bytes "User-Agent", bytes "Anthropic-Version",
    bytes "OpenAI-Organization", bytes "X-Request-Id"]

section
variable {N : Type} (env : Env N)

def Env.header (h : List (Bytes × Bytes)) (name : Bytes) : Bytes :=
  (h.lookup (env.canonicalHeaderKey name)).getD []

def Env.captureHeaders (h : List (Bytes × Bytes)) (whitelist : List Bytes) : List (Bytes × Bytes) :=
  (whitelist.map fun k => (k, env.header h k)).filter (·.2 ≠ [])

def Env.isSSE (contentType : Bytes) : Bool := (bytes "text/event-stream").isPrefixOf (env.toLower contentType)

def Proxy.skipRecording (p : Proxy) (status : Int) : Bool := p.skipRecordOnError && decide (400 ≤ status)

/-- The part of an interaction that both kinds of answers share.  The hash is that of the body
before it is encoded and redacted. -/
def Env.captured (q : ClientRequest) (a : Answer) : Interaction :=
  { hash := env.hashRequest q.method (env.hashPath q) q.body
    method := q.method
    path := q.path
    requestHeaders := env.captureHeaders q.headers defaultCaptureHeaders
    requestBody := (encodeBody env.printable q.body).1
    requestBodyEncoding := (encodeBody env.printable q.body).2
    responseStatus := a.status
    responseHeaders := env.captureHeaders a.headers defaultCaptureHeaders }

/-- What goes to `Append`; nothing does when the redaction fails. -/
def Proxy.redacted (p : Proxy) (it : Interaction) : Option Interaction :=
  match p.redactor with
  | none => some it
  | some r => (r.apply env.toRedactEnv it).toOption

def Proxy.recordStream (p : Proxy) (q : ClientRequest) (a : Answer) : Option Interaction :=
  if a.ending = .clientAborted then none
  else if p.skipRecording a.status || (p.skipRecordOnError && decide (a.ending = .upstreamErrored)) then none
  else p.redacted env { env.captured q a with streaming := true, streamEvents := a.events }

/-- `ServeHTTP`: the interaction that is recorded for a request.  There is no answer when the
upstream cannot be reached. -/
def Proxy.record (p : Proxy) (q : ClientRequest) (answer : Option Answer) : Option Interaction :=
  if maxRequestBodyBytes < q.body.length then none
  else
    answer.bind fun a =>
      if env.isSSE (env.header a.headers (bytes "Content-Type")) then p.recordStream env q a
      else
        a.body.bind fun body =>
          if p.skipRecording a.status then none
          else
            p.redacted env
              { env.captured q a with
                responseBody := (encodeBody env.printable body).1
                responseBodyEncoding := (encodeBody env.printable body).2 }

/-- An interaction as a line of the file gives it back: strings are made valid and stored bodies
compacted.  A body that is not JSON cannot be encoded. -/
def Env.reload (it : Interaction) : Option Interaction :=
  if (it.requestBody = [] ∨ Json.valid it.requestBody) ∧ (it.responseBody = [] ∨ Json.valid it.responseBody) then
    some
      { it with
        hash := coerce it.hash
        method := coerce it.method
        path := coerce it.path
        requestHeaders := it.requestHeaders.map fun e => (coerce e.1, coerce e.2)
        requestBody := if it.requestBody = [] then [] else env.compact it.requestBody
        responseHeaders := it.responseHeaders.map fun e => (coerce e.1, coerce e.2)
        responseBody := if it.responseBody = [] then [] else env.compact it.responseBody
        streamEvents := it.streamEvents.map fun ev => { ev with data := coerce ev.data } }
  else none

end

end MockAgents.Recording
