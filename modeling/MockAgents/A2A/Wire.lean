import MockAgents.Lib.Strconv
/-!
# The A2A wire types

The message and task types of `server.go` and what `json.Marshal` makes of them.  An `any`
is of a type `D` of its own, with its encoding as a parameter: a value of a definition may
have none.
-/

namespace MockAgents.A2A

open Lib Lib.Utf8 Lib.Strconv

variable {D : Type}

structure FilePart where
  name : String
  mimeType : String
  bytes : String
  uri : String
deriving DecidableEq

structure Part (D : Type) where
  kind : String
  text : String
  file : Option FilePart
  data : Option D
deriving DecidableEq

structure Message (D : Type) where
  role : String
  /-- `none` is the nil slice -/
  parts : Option (List (Part D))
  messageID : String
  kind : String
  taskID : String
  contextID : String
deriving DecidableEq

structure Artifact (D : Type) where
  artifactID : String
  name : String
  parts : Option (List (Part D))
deriving DecidableEq

structure TaskStatus (D : Type) where
  state : String
  message : Option (Message D)
  timestamp : String
deriving DecidableEq

structure Task (D : Type) where
  id : String
  contextID : String
  status : TaskStatus D
  artifacts : List (Artifact D)
  history : List (Message D)
  kind : String
deriving DecidableEq

/-- The zero `Task`. -/
def Task.zero : Task D := ⟨"", "", ⟨"", none, ""⟩, [], [], ""⟩

/-- What `message/stream` emits. -/
inductive Event (D : Type) where
  | task (t : Task D)
  | statusUpdate (taskID contextID kind : String) (status : TaskStatus D) (final : Bool)
  | artifactUpdate (taskID contextID kind : String) (artifact : Artifact D) (append lastChunk : Bool)
deriving DecidableEq

/-! ## JSON text -/

/-- A character in a JSON string, as `json.Marshal` writes it. -/
def escapeChar (c : Char) : List Char :=
  if c = '"' || c = '\\' then ['\\', c]
  else if c = Char.ofNat 8 then ['\\', 'b']
  else if c = Char.ofNat 12 then ['\\', 'f']
  else if c = '\n' then ['\\', 'n']
  else if c = '\r' then ['\\', 'r']
  else if c = '\t' then ['\\', 't']
  else if c.toNat < 0x20 || c = '<' || c = '>' || c = '&' then
    ['\\', 'u', '0', '0', hexDigit (c.toNat / 16), hexDigit (c.toNat % 16)]
  else if c = Char.ofNat 0x2028 || c = Char.ofNat 0x2029 then
    ['\\', 'u', '2', '0', '2', hexDigit (c.toNat % 16)]
  else [c]

def encodeString (s : String) : Bytes := encode ('"' :: s.toList.flatMap escapeChar ++ ['"'])

/-- A field with `omitempty`. -/
def omitEmpty (s : String) : Option Bytes := if s = "" then none else some (encodeString s)

def commas (items : List Bytes) : Bytes := [UInt8.ofNat 44].intercalate items

def encodeArray (items : List Bytes) : Bytes := bytes "[" ++ commas items ++ bytes "]"

/-- The fields of a struct in order, without those left out. -/
def encodeObject (fields : List (String × Option Bytes)) : Bytes :=
  bytes "\x7b" ++
    commas (fields.filterMap fun f => f.2.map fun v => encodeString f.1 ++ bytes ":" ++ v) ++
    bytes "\x7d"

def FilePart.marshal (f : FilePart) : Bytes :=
  encodeObject [("name", omitEmpty f.name), ("mimeType", omitEmpty f.mimeType),
    ("bytes", omitEmpty f.bytes), ("uri", omitEmpty f.uri)]

section
variable (marshalData : D → Option Bytes)

def Part.marshal (p : Part D) : Option Bytes := do
  let data ← match p.data with
    | none => some none
    | some d => (marshalData d).map some
  return encodeObject [("kind", some (encodeString p.kind)), ("text", omitEmpty p.text),
    ("file", p.file.map FilePart.marshal), ("data", data)]

def marshalParts : Option (List (Part D)) → Option Bytes
  | none => some (bytes "null")
  | some parts => (parts.mapM (Part.marshal marshalData)).map encodeArray

def Message.marshal (m : Message D) : Option Bytes := do
  let parts ← marshalParts marshalData m.parts
  return encodeObject [("role", some (encodeString m.role)), ("parts", some parts),
    ("messageId", some (encodeString m.messageID)), ("kind", some (encodeString m.kind)),
    ("taskId", omitEmpty m.taskID), ("contextId", omitEmpty m.contextID)]

def Artifact.marshal (a : Artifact D) : Option Bytes := do
  let parts ← marshalParts marshalData a.parts
  return encodeObject [("artifactId", some (encodeString a.artifactID)), ("name", omitEmpty a.name),
    ("parts", some parts)]

def TaskStatus.marshal (s : TaskStatus D) : Option Bytes := do
  let message ← match s.message with
    | none => some none
    | some m => (m.marshal marshalData).map some
  return encodeObject [("state", some (encodeString s.state)), ("message", message),
    ("timestamp", omitEmpty s.timestamp)]

/-- An array with `omitempty`. -/
def omitNone (items : List Bytes) : Option Bytes :=
  if items.isEmpty then none else some (encodeArray items)

/-- `json.Marshal(task)`. -/
def Task.marshal (t : Task D) : Option Bytes := do
  let status ← t.status.marshal marshalData
  let artifacts ← t.artifacts.mapM (Artifact.marshal marshalData)
  let history ← t.history.mapM (Message.marshal marshalData)
  return encodeObject [("id", some (encodeString t.id)),
    ("contextId", some (encodeString t.contextID)), ("status", some status),
    ("artifacts", omitNone artifacts), ("history", omitNone history),
    ("kind", some (encodeString t.kind))]

/-- `len(encoded)`, which is 0 when there is no encoding. -/
def Task.encodedLen (t : Task D) : Nat := ((t.marshal marshalData).getD []).length

end

end MockAgents.A2A
