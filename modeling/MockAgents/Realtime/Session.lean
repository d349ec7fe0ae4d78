import MockAgents.Realtime.Vad
/-!
# The session state machine

`Handle`, `Tick` and the construction of a session.  A run is the list of calls
the transport makes on one session; every call returns the events to write, with
their items as they are when the call returns.
-/

namespace MockAgents.Realtime

open Lib

variable {F : Type} [GoFloat F]

namespace Session

/-! ## Handlers -/

/-- `session.update`. -/
def updateSession (env : Env F) (s : Session F) (raw : Raw) : Session F × List (Event F ItemRef) :=
  match s.validateUpdate env raw with
  | some e => (s, [.error e])
  | none =>
    let updated := s.applyConfig env raw
    let updated :=
      if updated.cfg.turnDetection ≠ s.cfg.turnDetection then updated.refreshVAD env else updated
    (updated, [.sessionUpdated updated.sessionObject])

def clientItem (env : Env F) (it : ParsedItem) : ItemBody × List Message :=
  if it.type = "function_call_output" then
    (.functionCallOutput it.callID it.output, [⟨"tool", it.output⟩])
  else if it.type = "function_call" then
    (.functionCall it.name it.callID it.arguments, [⟨"assistant", []⟩])
  else if it.type = "message" then
    (.message it.role (it.echoContent env),
      if it.text env = [] then [] else [⟨it.role, it.text env⟩])
  else (.other it.type, [])

/-- The `previous_item_id` of a new client item, or the error for an unknown one. -/
def placeItem (env : Env F) (s : Session F) (after : String) : Except ErrorBody (Option String) :=
  if after = "" then .ok s.previousItemID
  else if after = "root" then .ok none
  else if (s.items.lookup after).isSome then .ok (some after)
  else
    .error (s.errorParam "item_not_found"
      ("previous_item_id " ++ env.quote after ++ " not found") "previous_item_id")

def addItem (env : Env F) (s : Session F) (it : ParsedItem) (id after : String) :
    Session F × List (Event F ItemRef) :=
  match s.placeItem env after with
  | .error e => (s, [.error e])
  | .ok prev =>
    let (body, entries) := clientItem env it
    let s := s.insertItem after id
    let (s, item) := alloc { s with history := s.history ++ entries } id ⟨.completed, body⟩
    (s.rememberItem item, conversationItemEvents prev item)

def createItem (env : Env F) (s : Session F) (ce : ClientEvent) : Session F × List (Event F ItemRef) :=
  let s := { s with idleAt := 0, idleFired := false }
  let it := parseItem env ce.item
  match s.validateMessageItem env it with
  | some e => (s, [.error e])
  | none =>
    if it.id = "" then
      let (s, id) := s.nextID .item
      s.addItem env it id ce.previousItemID
    else if (s.items.lookup it.id).isSome then
      (s, [.error (s.errorParam "invalid_value"
        ("item with id " ++ env.quote it.id ++ " already exists") "item.id")])
    else s.addItem env it it.id ce.previousItemID

/-- An inline `max_output_tokens` out of range. -/
def invalidOverride (env : Env F) (raw : Raw) : Bool :=
  raw ≠ [] && (match env.decode.maxOutputTokensUpdate raw with
    | none => false
    | some tokens => !validMaxOutputTokens env tokens)

def requestResponse (env : Env F) (s : Session F) (ce : ClientEvent) :
    Session F × List (Event F ItemRef) :=
  if s.isTranscription then
    (s, [.error (s.errorNoCode "Cannot create a response on a transcription session")])
  else if invalidOverride env ce.response then
    (s, [.error (s.errorParam "invalid_value" maxOutputTokensMessage "response.max_output_tokens")])
  else createResponse env { s with idleFired := false } ce

def itemNotFound (env : Env F) (s : Session F) (id : String) : Event F ItemRef :=
  .error (s.errorParam "item_not_found" ("item " ++ env.quote id ++ " not found") "item_id")

def retrieveItem (env : Env F) (s : Session F) (id : String) : Session F × List (Event F ItemRef) :=
  match s.items.lookup id with
  | some loc => (s, [.itemRetrieved ⟨id, loc⟩])
  | none => (s, [s.itemNotFound env id])

/-- `conversation.item.delete`; an item of the response in flight is tombstoned. -/
def deleteItem (env : Env F) (s : Session F) (id : String) : Session F × List (Event F ItemRef) :=
  match s.items.lookup id with
  | none => (s, [s.itemNotFound env id])
  | some _ =>
    let s := removeItem { s with items := s.items.erase id } id
    let s :=
      { s with
        inflight := s.inflight.map fun inf =>
          { inf with deleted := Function.update inf.deleted id true } }
    (s, [.itemDeleted id])

def hasOutputAudio : ItemBody → Bool
  | .message role content => role = "assistant" && content.any (·.type = "output_audio")
  | _ => false

/-- An assistant message that an audio response in flight is still streaming. -/
def inProgressAudio (s : Session F) (data : ItemData) : Bool :=
  match data, s.inflight with
  | ⟨.inProgress, .message role _⟩, some inf => role = "assistant" && !inf.rc.textOnly
  | _, _ => false

/-- The transcripts of the audio parts are dropped. -/
def blankAudio (data : ItemData) : ItemData :=
  match data.body with
  | .message role content =>
    { data with
      body := .message role (content.map fun p =>
        if p.type = "output_audio" then { p with transcript := .text [] } else p) }
  | _ => data

def truncateItem (env : Env F) (s : Session F) (ce : ClientEvent) :
    Session F × List (Event F ItemRef) :=
  match s.items.lookup ce.itemID with
  | none => (s, [s.itemNotFound env ce.itemID])
  | some loc =>
    let data := s.load loc
    let ack := Event.itemTruncated ce.itemID ce.contentIndex ce.audioEndMs
    if s.inProgressAudio data then (s.truncateInflightItem ce.itemID, [ack])
    else if hasOutputAudio data.body then (s.modify loc blankAudio, [ack])
    else (s, [.error (s.errorNoCode "Only model output audio messages can be truncated")])

/-- `response.cancel`; a turn committed meanwhile still gets its response. -/
def cancelResponse (env : Env F) (s : Session F) (ce : ClientEvent) :
    Session F × List (Event F ItemRef) :=
  let rejected :=
    (s, [Event.error (s.errorOf "response_cancel_not_active"
      "Cancellation failed: no active response found")])
  match s.inflight with
  | none => rejected
  | some inf =>
    if ce.responseID = "" || ce.responseID = inf.respID then
      let (s, out) := s.cancelInflight inf .clientCancelled
      if s.pendingResponse then
        let (s, more) := createResponse env { s with pendingResponse := false } {}
        (s, out ++ more)
      else (s, out)
    else rejected

def rejectUnknown (env : Env F) (s : Session F) (name : String) : Event F ItemRef :=
  if name = "" then .error (s.errorOf "invalid_event" "Missing required parameter: 'type'")
  else .error (s.errorOf "unknown_event" ("unknown or unsupported event type " ++ env.quote name))

def dispatch (env : Env F) (s : Session F) (ce : ClientEvent) : Session F × List (Event F ItemRef) :=
  match ce.type with
  | .sessionUpdate => s.updateSession env ce.session
  | .audioAppend => s.appendAudio env ce.audio
  | .audioClear => s.clearBuffer
  | .audioCommit => s.commitBuffer env
  | .itemCreate => s.createItem env ce
  | .responseCreate => s.requestResponse env ce
  | .itemRetrieve => s.retrieveItem env ce.itemID
  | .itemDelete => s.deleteItem env ce.itemID
  | .itemTruncate => s.truncateItem env ce
  | .responseCancel => s.cancelResponse env ce
  | .other name => (s, [s.rejectUnknown env name])

/-! ## Calls -/

/-- The items of an event as the client sees them. -/
def view (s : Session F) (ref : ItemRef) : Item := ⟨ref.id, s.load ref.loc⟩

end Session

def ResponseObject.map {ι κ : Type} (f : ι → κ) (r : ResponseObject ι) : ResponseObject κ :=
  { r with output := r.output.map f }

def LadderEvent.map {ι κ : Type} (f : ι → κ) : LadderEvent ι → LadderEvent κ
  | .outputItemAdded item => .outputItemAdded (f item)
  | .outputItemDone item => .outputItemDone (f item)
  | .contentPartAdded id part => .contentPartAdded id part
  | .contentPartDone id part => .contentPartDone id part
  | .outputTextDelta id delta => .outputTextDelta id delta
  | .outputTextDone id text => .outputTextDone id text
  | .audioTranscriptDelta id delta => .audioTranscriptDelta id delta
  | .audioTranscriptDone id text => .audioTranscriptDone id text
  | .outputAudioDelta id delta => .outputAudioDelta id delta
  | .outputAudioDone id => .outputAudioDone id
  | .argumentsDelta id callID delta => .argumentsDelta id callID delta
  | .argumentsDone id callID args => .argumentsDone id callID args

def Event.map {ι κ : Type} (f : ι → κ) : Event F ι → Event F κ
  | .error body => .error body
  | .sessionCreated obj => .sessionCreated obj
  | .sessionUpdated obj => .sessionUpdated obj
  | .conversationCreated id => .conversationCreated id
  | .itemAdded prev item => .itemAdded prev (f item)
  | .itemDone prev item => .itemDone prev (f item)
  | .itemRetrieved item => .itemRetrieved (f item)
  | .itemDeleted id => .itemDeleted id
  | .itemTruncated id index ms => .itemTruncated id index ms
  | .transcriptionDelta id delta lp => .transcriptionDelta id delta lp
  | .transcriptionCompleted id text usage lp => .transcriptionCompleted id text usage lp
  | .bufferCleared => .bufferCleared
  | .bufferCommitted prev id => .bufferCommitted prev id
  | .speechStarted ms id => .speechStarted ms id
  | .speechStopped ms id => .speechStopped ms id
  | .timeoutTriggered ms id => .timeoutTriggered ms id
  | .responseCreated r => .responseCreated (r.map f)
  | .responseDone r => .responseDone (r.map f)
  | .rateLimitsUpdated n => .rateLimitsUpdated n
  | .ladder respID i ev => .ladder respID i (ev.map f)

namespace Session

/-- `stamp`: every event gets an id of its own and is written out. -/
def stamp (s : Session F) : List (Event F ItemRef) → Session F × List (ServerEvent F)
  | [] => (s, [])
  | ev :: rest =>
    let (s', id) := s.nextID .event
    let (s'', more) := stamp s' rest
    (s'', ⟨id, ev.map s.view⟩ :: more)

def handle (env : Env F) (s : Session F) (ce : ClientEvent) : Session F × List (ServerEvent F) :=
  let (s, out) := dispatch env { s with lastClientEventID := ce.eventID } ce
  s.stamp out

def advance (env : Env F) (s : Session F) (now : Int) : Session F × List (Event F ItemRef) :=
  let (s, out) := drainQueue env { s with lastClientEventID := "" } now
  let (s, idle) := s.fireIdle env now
  (s, out ++ idle)

def tick (env : Env F) (s : Session F) (now : Int) : Session F × List (ServerEvent F) :=
  let (s, out) := s.advance env now
  s.stamp out

/-- `NewSession`. -/
def new (env : Env F) (id model : String) : Session F :=
  let zero : F := GoFloat.ofInt 0
  let cfg : SessionConfig F :=
    { sessionType := .unset, model := "", voice := "", instructions := "", outputModalities := []
      tools := [], toolChoice := [], maxOutputTokens := [], transcription := []
      turnDetection := defaultTurnDetection, inputFormat := [], outputFormat := [], speed := zero
      tracing := [], truncation := [], prompt := [], includeFields := [], noiseReduction := [] }
  refreshVAD env
    { id := id, initialModel := model, cfg := cfg, history := [], audioBuffer := false, counter := 0
      expiresAt := 0, lastItemID := "", itemOrder := [], lastClientEventID := "", items := ∅
      heap := [], vad := none, paceInterval := 0, inflight := none, idleAt := 0, idleFired := false
      bufferedMs := zero, respondedWithAudio := false, strict := false, pendingResponse := false
      audioBuf := [], vadCommitting := false, lastToolCalls := [], audioWindowStartMs := zero
      genCalls := 0, clockReads := 0 }

def setSessionType (s : Session F) (t : String) : Session F :=
  match SessionType.parse t with
  | none => s
  | some t => { s with cfg := { s.cfg with sessionType := t } }

def seedConfig (env : Env F) (s : Session F) (raw : Raw) : Session F :=
  let seeded := s.applyConfig env raw
  match seeded.validateTurnDetection env raw with
  | some _ => { seeded with cfg := { seeded.cfg with turnDetection := s.cfg.turnDetection } }
  | none =>
    if seeded.cfg.turnDetection ≠ s.cfg.turnDetection then seeded.refreshVAD env else seeded

def greeting (s : Session F) : Session F × List (ServerEvent F) :=
  s.stamp [.sessionCreated s.sessionObject, .conversationCreated ("conv_" ++ s.id)]

end Session

/-- How the transport sets a session up before the greeting. -/
structure Setup where
  id : String
  model : String := ""
  expiresAt : Int := 0
  sessionType : String := ""
  seed : Raw := []
  strict : Bool := false
  paceInterval : Int := 0

def Setup.session (env : Env F) (setup : Setup) : Session F :=
  let s := { Session.new env setup.id setup.model with expiresAt := setup.expiresAt }
  let s := (s.setSessionType setup.sessionType).seedConfig env setup.seed
  { s with strict := setup.strict, paceInterval := setup.paceInterval }

/-- One call the transport makes. -/
inductive Call where
  | greeting
  | handle (ce : ClientEvent)
  | tick (now : Int)
deriving DecidableEq, Repr

def Session.call (env : Env F) (s : Session F) : Call → Session F × List (ServerEvent F)
  | .greeting => s.greeting
  | .handle ce => s.handle env ce
  | .tick now => s.tick env now

def Session.run (env : Env F) (s : Session F) (calls : List Call) : Session F :=
  calls.foldl (fun s c => (s.call env c).1) s

def Session.trace (env : Env F) (s : Session F) : List Call → List (ServerEvent F)
  | [] => []
  | c :: cs => (s.call env c).2 ++ trace env (s.call env c).1 cs

end MockAgents.Realtime
