import MockAgents.Lib.Strings
import MockAgents.Lib.Base64
import Mathlib
/-!
# The data of a realtime session

The types of `internal/realtime`.  Texts that reach the session through JSON are
strings, texts the engine produces are byte strings, and a `json.RawMessage` is
its bytes.  `float64` is an arbitrary type with Go's operations; no law about them
is used.  Go maps that several places share (conversation items) live in a heap
and are passed around by reference.
-/

namespace MockAgents.Realtime

open Lib

/-- `json.RawMessage`; a missing one is empty. -/
abbrev Raw := Bytes

/-- The `float64` operations the session performs. -/
class GoFloat (F : Type) where
  ofInt : Int → F
  /-- The literal `m * 10^-e`. -/
  lit : Int → Nat → F
  add : F → F → F
  sub : F → F → F
  mul : F → F → F
  div : F → F → F
  lt : F → F → Bool
  le : F → F → Bool
  /-- `int(x)`. -/
  toInt : F → Int
  /-- `int(math.Round(x))`. -/
  round : F → Int
  /-- `math.Trunc`. -/
  trunc : F → F
  eq : F → F → Bool

/-- `engine.RequestMessage`. -/
structure Message where
  role : String
  content : Bytes
deriving DecidableEq, Repr

/-- `types.ToolCallSpec`; `arguments` is the JSON text of the argument map, `none`
when the map is empty or cannot be marshalled. -/
structure ToolCallSpec where
  name : Bytes
  rawArguments : Bytes := []
  arguments : Option Bytes := none
deriving DecidableEq, Repr

structure EngineResponse where
  content : Bytes
  toolCalls : List ToolCallSpec := []
deriving DecidableEq, Repr

/-- What a call of the generator returns. -/
inductive Generated where
  | error (msg : Bytes)
  | noResponse
  | response (resp : EngineResponse)
deriving DecidableEq, Repr

/-! ## Conversation items -/

inductive ItemStatus where
  | inProgress
  | completed
  | incomplete
deriving DecidableEq, Repr

/-- A string-valued key of a content part: absent, present with another JSON type
(such as null), or present with a text. -/
inductive Field where
  | absent
  | nonString
  | text (b : Bytes)
deriving DecidableEq, Repr

/-- A content part; `extra` is what a part echoed from the client carries beside
the keys the session reads. -/
structure ContentPart where
  type : String
  text : Field := .absent
  transcript : Field := .absent
  audio : Option (List Char) := none
  extra : Raw := []
deriving DecidableEq, Repr

inductive ItemBody where
  | message (role : String) (content : List ContentPart)
  | functionCall (name : Bytes) (callID : String) (arguments : Bytes)
  | functionCallOutput (callID : String) (output : Bytes)
  | other (type : String)
deriving DecidableEq, Repr

structure ItemData where
  status : ItemStatus
  body : ItemBody
deriving DecidableEq, Repr

/-- A reference to an item map: its immutable id and its place in the heap. -/
structure ItemRef where
  id : String
  loc : Nat
deriving DecidableEq, Repr

/-- An item as a client sees it. -/
structure Item where
  id : String
  data : ItemData
deriving DecidableEq, Repr

/-! ## Server events -/

structure ErrorBody where
  type : String
  code : Option String
  message : String
  param : Option String
  eventID : Option String
deriving DecidableEq, Repr

inductive ResponseStatus where
  | inProgress
  | completed
  | incomplete
  | failed
  | cancelled
deriving DecidableEq, Repr

inductive CancelReason where
  | turnDetected
  | clientCancelled
deriving DecidableEq, Repr

inductive StatusDetails where
  | incomplete
  | failed (message : Bytes)
  | cancelled (reason : CancelReason)
deriving DecidableEq, Repr

structure Usage where
  inputTokens : Nat
  outputTokens : Nat
  totalTokens : Nat
  textOutputTokens : Nat
  audioOutputTokens : Nat
deriving DecidableEq, Repr

/-- The `response` envelope over a type of output items. -/
structure ResponseObject (ι : Type) where
  id : String
  status : ResponseStatus
  statusDetails : Option StatusDetails
  output : List ι
  outputModalities : List String
  conversationID : Option String
  metadata : Raw
  usage : Option Usage
  voice : String
  format : Raw
  maxOutputTokens : Raw
deriving DecidableEq, Repr

/-- A content part of the `response.content_part` events. -/
inductive Part where
  | text (text : Bytes)
  | audio (transcript : Bytes)
deriving DecidableEq, Repr

/-- The events of a response's ladder, without the response id and output index
they all carry. -/
inductive LadderEvent (ι : Type) where
  | outputItemAdded (item : ι)
  | outputItemDone (item : ι)
  | contentPartAdded (itemID : String) (part : Part)
  | contentPartDone (itemID : String) (part : Part)
  | outputTextDelta (itemID : String) (delta : Bytes)
  | outputTextDone (itemID : String) (text : Bytes)
  | audioTranscriptDelta (itemID : String) (delta : Bytes)
  | audioTranscriptDone (itemID : String) (transcript : Bytes)
  | outputAudioDelta (itemID : String) (delta : Bytes)
  | outputAudioDone (itemID : String)
  | argumentsDelta (itemID callID : String) (delta : Bytes)
  | argumentsDone (itemID callID : String) (arguments : Bytes)
deriving DecidableEq, Repr

/-- The session object echoed to the client; a transcription session has no
output side. -/
structure SessionObject (F : Type) where
  id : String
  transcription : Bool
  model : String
  outputModalities : List String
  instructions : String
  tools : Raw
  toolChoice : Raw
  maxOutputTokens : Raw
  tracing : Raw
  truncation : Raw
  prompt : Raw
  includeFields : Raw
  inputFormat : Raw
  inputTranscription : Raw
  turnDetection : Raw
  noiseReduction : Raw
  outputFormat : Raw
  voice : String
  speed : F
  expiresAt : Option Int

inductive TranscriptionUsage (F : Type) where
  | duration (seconds : F)
  | tokens (inputTokens : Int) (outputTokens : Nat)

/-- A server event without its event id, over a type of items. -/
inductive Event (F ι : Type) where
  | error (body : ErrorBody)
  | sessionCreated (session : SessionObject F)
  | sessionUpdated (session : SessionObject F)
  | conversationCreated (id : String)
  | itemAdded (previousItemID : Option String) (item : ι)
  | itemDone (previousItemID : Option String) (item : ι)
  | itemRetrieved (item : ι)
  | itemDeleted (itemID : String)
  | itemTruncated (itemID : String) (contentIndex audioEndMs : Int)
  | transcriptionDelta (itemID : String) (delta : Bytes) (logprobs : Bool)
  | transcriptionCompleted (itemID : String) (transcript : Bytes)
      (usage : TranscriptionUsage F) (logprobs : List Bytes)
  | bufferCleared
  | bufferCommitted (previousItemID : Option String) (itemID : String)
  | speechStarted (audioStartMs : Int) (itemID : String)
  | speechStopped (audioEndMs : Int) (itemID : String)
  | timeoutTriggered (atMs : Int) (itemID : String)
  | responseCreated (response : ResponseObject ι)
  | responseDone (response : ResponseObject ι)
  | rateLimitsUpdated (remainingTokens : Int)
  | ladder (respID : String) (outputIndex : Nat) (event : LadderEvent ι)

structure ServerEvent (F : Type) where
  eventID : String
  event : Event F Item

/-! ## Client events -/

inductive ClientType where
  | sessionUpdate
  | audioAppend
  | audioClear
  | audioCommit
  | itemCreate
  | responseCreate
  | itemRetrieve
  | itemDelete
  | itemTruncate
  | responseCancel
  | other (name : String)
deriving DecidableEq, Repr

structure ClientEvent where
  type : ClientType := .other ""
  eventID : String := ""
  session : Raw := []
  item : Raw := []
  audio : Bytes := []
  response : Raw := []
  itemID : String := ""
  contentIndex : Int := 0
  audioEndMs : Int := 0
  previousItemID : String := ""
  responseID : String := ""
deriving DecidableEq, Repr

/-! ## Configuration -/

inductive SessionType where
  | unset
  | realtime
  | transcription
deriving DecidableEq, Repr

structure SessionConfig (F : Type) where
  sessionType : SessionType
  model : String
  voice : String
  instructions : String
  outputModalities : List String
  tools : Raw
  toolChoice : Raw
  maxOutputTokens : Raw
  transcription : Raw
  turnDetection : Raw
  inputFormat : Raw
  outputFormat : Raw
  speed : F
  tracing : Raw
  truncation : Raw
  prompt : Raw
  includeFields : Raw
  noiseReduction : Raw

structure AudioInputUpdate where
  transcription : Raw
  turnDetection : Raw
  format : Raw
  noiseReduction : Raw
deriving DecidableEq, Repr

structure AudioOutputUpdate (F : Type) where
  voice : String
  format : Raw
  speed : Option F

/-- `sessionUpdate`; the nested pointers are options. -/
structure SessionUpdate (F : Type) where
  type : String
  model : String
  voice : String
  instructions : String
  modalities : List String
  outputModalities : List String
  inputAudioTranscription : Raw
  tools : Raw
  toolChoice : Raw
  maxOutputTokens : Raw
  tracing : Raw
  truncation : Raw
  prompt : Raw
  includeFields : Raw
  turnDetection : Raw
  inputAudioFormat : String
  outputAudioFormat : String
  audioInput : Option AudioInputUpdate
  audioOutput : Option (AudioOutputUpdate F)

inductive VadType where
  | serverVad
  | semanticVad
  | other (name : String)
deriving DecidableEq, Repr

structure VadConfig (F : Type) where
  type : VadType
  threshold : F
  prefixPaddingMs : Int
  silenceDurationMs : Int
  createResponse : Option Bool
  interruptResponse : Option Bool
  idleTimeoutMs : Int
  eagerness : String

structure VadState (F : Type) where
  cfg : VadConfig F
  totalMs : F
  speechActive : Bool
  speechStartMs : F
  silenceMs : F
  pendingItemID : String

/-- `responseConfig`, the inline payload of `response.create`. -/
structure ResponseConfig where
  instructions : String
  outputModalities : List String
  modalities : List String
  metadata : Raw
  conversation : String
  maxOutputTokens : Raw
  input : Raw
  audioOutput : Option (String × Raw)
deriving DecidableEq, Repr

structure ParsedItem where
  id : String := ""
  type : String := "message"
  role : String := "user"
  callID : String := ""
  output : Bytes := []
  name : Bytes := []
  arguments : Bytes := []
  content : Raw := []
deriving DecidableEq, Repr

/-- `json.Unmarshal` into each of the types the session decodes; `none` is an
error.  A decoder into a value with defaults takes that value. -/
structure Decoders (F : Type) where
  sessionUpdate : Raw → Option (SessionUpdate F)
  /-- `map[string]json.RawMessage`, with its keys sorted. -/
  object : Raw → Option (List (String × Raw))
  /-- `map[string]map[string]json.RawMessage`: sorted sections and their sorted keys. -/
  sections : Raw → Option (List (String × List String))
  /-- The beta-flat and the nested `turn_detection` of a session payload. -/
  turnDetectionUpdate : Raw → Option (Raw × Option Raw)
  vadConfig : VadConfig F → Raw → Option (VadConfig F)
  sessionTypeUpdate : Raw → Option String
  maxOutputTokensUpdate : Raw → Option Raw
  float : Raw → Option F
  int : Raw → Option Int
  responseConfig : Raw → Option ResponseConfig
  array : Raw → Option (List Raw)
  parsedItem : ParsedItem → Raw → Option ParsedItem
  partTypes : Raw → Option (List String)
  /-- The `text` and `transcript` of each content part. -/
  partTexts : Raw → Option (List (Bytes × Bytes))
  parts : Raw → Option (List ContentPart)
  transcriptionModel : Raw → Option String
  strings : Raw → Option (List String)
  formatType : Raw → Option String

/-! ## State -/

/-- `responseCtx`: one response's effective settings. -/
structure ResponseCtx where
  mods : List String
  outOfBand : Bool
  metadata : Raw
  instructions : String
  voice : String
  format : Raw
  maxOutputTokens : Raw
  maxTokens : Int
  incomplete : Bool
  hasInput : Bool
  input : List Message
  inputErr : Option ErrorBody
  toolCallCount : Nat
deriving DecidableEq, Repr

/-- `inflightResponse`.  The closure `onDone` appends fixed messages to the
history and is kept as those messages. -/
structure Inflight (F : Type) where
  respID : String
  rc : ResponseCtx
  queue : List (Event F ItemRef)
  nextAt : Int
  doneItems : List ItemRef
  onDone : List Message
  usage : Option Usage
  emitted : String → Option Bytes
  partOpened : String → Bool
  transcript : Bytes
  chainPrev : String → Option (Option String)
  deleted : String → Bool

/-- `Session`.  A `time.Time` is its distance from the zero time, so 0 is the
unset time.  `genCalls` and `clockReads` count the calls of the generator and of
the clock, whose answers the environment lists. -/
structure Session (F : Type) where
  id : String
  initialModel : String
  cfg : SessionConfig F
  history : List Message
  audioBuffer : Bool
  counter : Nat
  expiresAt : Int
  lastItemID : String
  itemOrder : List String
  lastClientEventID : String
  items : AList fun _ : String => Nat
  heap : List ItemData
  vad : Option (VadState F)
  paceInterval : Int
  inflight : Option (Inflight F)
  idleAt : Int
  idleFired : Bool
  bufferedMs : F
  respondedWithAudio : Bool
  strict : Bool
  pendingResponse : Bool
  audioBuf : Bytes
  vadCommitting : Bool
  lastToolCalls : List Bytes
  audioWindowStartMs : F
  genCalls : Nat
  clockReads : Nat

/-- What the session calls out to: the engine, the clock, the text formatting and
hashing it does not implement itself, and the JSON decoders. -/
structure Env (F : Type) where
  generate : Nat → String → String → List Message → Generated
  clock : Nat → Int
  printable : Char → Bool
  /-- `%.2f`. -/
  formatMs : F → String
  synthAudioChunk : Bytes → Bytes
  decode : Decoders F

end MockAgents.Realtime
