import MockAgents.Lib.JsonEncode
import MockAgents.Lib.Strings
import MockAgents.Recording.Cassette
/-!
# The lines of a cassette

What `json.Encoder` writes for an `Interaction`: one object on one line, in the order of the
struct's fields.  The text of a time is a parameter; headers are listed in the order of their keys.
-/

namespace MockAgents.Recording

open Lib Lib.Utf8 Lib.Json

/-- `time.Time.MarshalJSON`, which fails outside the years of RFC 3339. -/
structure TimeText where
  marshal : Option Int → Option Bytes
  oneLine : ∀ t text, marshal t = some text → 10 ∉ text

def member (key : String) (value : Bytes) : Bytes := jsonString (bytes key) ++ byte ':' :: value

def braced (members : List Bytes) : Bytes := byte '{' :: Strings.join members [byte ','] ++ [byte '}']

def stringMap (entries : List (Bytes × Bytes)) : Bytes :=
  braced (entries.map fun e => jsonString e.1 ++ byte ':' :: jsonString e.2)

def decimal (n : Int) : Bytes := bytes (toString n)

def StreamEvent.object (ev : StreamEvent) : Bytes :=
  braced [member "delay_ms" (decimal ev.delayMs), member "data" (jsonString ev.data)]

def BodyEncoding.name : BodyEncoding → Bytes
  | .json => []
  | .text => bytes "text"
  | .base64 => bytes "base64"
  | .other name => name

def unlessEmpty {α : Type} (key : String) (value : List α) (text : List α → Bytes) : List Bytes :=
  if value.isEmpty then [] else [member key (text value)]

/-- A `json.RawMessage` with `omitempty`, which has to be valid. -/
def rawMember (key : String) (raw : Bytes) : Option (List Bytes) :=
  if raw.isEmpty then some [] else (compact raw).map fun text => [member key text]

def streamText (events : List StreamEvent) : Bytes :=
  byte '[' :: Strings.join (events.map StreamEvent.object) [byte ','] ++ [byte ']']

def Interaction.members (it : Interaction) (time : Bytes) (request response : List Bytes) : List Bytes :=
  [member "recorded_at" time, member "hash" (jsonString it.hash), member "method" (jsonString it.method),
    member "path" (jsonString it.path)] ++
  unlessEmpty "request_headers" it.requestHeaders stringMap ++ request ++
  [member "response_status" (decimal it.responseStatus)] ++
  unlessEmpty "response_headers" it.responseHeaders stringMap ++ response ++
  unlessEmpty "request_body_encoding" it.requestBodyEncoding.name jsonString ++
  unlessEmpty "response_body_encoding" it.responseBodyEncoding.name jsonString ++
  (if it.streaming then [member "streaming" (bytes "true")] else []) ++
  unlessEmpty "stream_events" it.streamEvents streamText

def Interaction.object (tt : TimeText) (it : Interaction) : Option Bytes := do
  let time ← tt.marshal it.recordedAt
  let request ← rawMember "request_body" it.requestBody
  let response ← rawMember "response_body" it.responseBody
  some (braced (it.members time request response))

/-- `json.Encoder.Encode`: the object and a newline. -/
def Interaction.encode (tt : TimeText) (it : Interaction) : Option Bytes := (it.object tt).map (· ++ [10])

end MockAgents.Recording
