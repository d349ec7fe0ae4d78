import MockAgents.Realtime.Ladder
/-!
# Creating a response

`createResponse` of `session.go`: the effective settings of a response, the call
of the engine, and the emission of its ladder in one burst or paced.
-/

namespace MockAgents.Realtime

open Lib

variable {F : Type} [GoFloat F]

namespace Session

/-! ## The settings of a response -/

/-- The loop of `inputContext`: the messages of a custom context, or the error for
a reference to an unknown item. -/
def inputMessages (env : Env F) (s : Session F) : List Raw → Except ErrorBody (List Message)
  | [] => .ok []
  | raw :: rest =>
    let it := parseItem env raw
    let entry : Except ErrorBody (Option Message) :=
      if it.type = "item_reference" then
        match s.items.lookup it.id with
        | none =>
          .error (s.errorParam "item_not_found"
            ("input item_reference " ++ env.quote it.id ++ " not found") "response.input")
        | some loc => .ok (storedItemToMessage (s.load loc).body)
      else if it.type = "function_call_output" then .ok (some ⟨"tool", it.output⟩)
      else if it.type = "function_call" then .ok (some ⟨"assistant", []⟩)
      else if it.type = "message" then
        .ok (if it.text env = [] then none else some ⟨it.role, it.text env⟩)
      else .ok none
    match entry with
    | .error e => .error e
    | .ok msg =>
      match inputMessages env s rest with
      | .error e => .error e
      | .ok msgs => .ok (msg.toList ++ msgs)

def overrideCtx (env : Env F) (s : Session F) (rc : ResponseCtx) (cfg : ResponseConfig) :
    ResponseCtx :=
  let rc :=
    { rc with
      mods :=
        if cfg.outputModalities ≠ [] then cfg.outputModalities
        else if cfg.modalities ≠ [] then cfg.modalities
        else rc.mods
      instructions := overrideText rc.instructions cfg.instructions
      maxOutputTokens := overrideRaw rc.maxOutputTokens cfg.maxOutputTokens
      voice := overrideText rc.voice ((cfg.audioOutput.map (·.1)).getD "")
      format := overrideRaw rc.format ((cfg.audioOutput.map (·.2)).getD [])
      metadata := cfg.metadata
      outOfBand := cfg.conversation = "none" }
  if isNull cfg.input then rc
  else
    -- a payload that is not an array counts as absent
    match env.decode.array cfg.input with
    | none => rc
    | some items =>
      match s.inputMessages env items with
      | .error e => { rc with inputErr := some e }
      | .ok msgs => { rc with hasInput := true, input := msgs }

def newResponseCtx (env : Env F) (s : Session F) (raw : Raw) : ResponseCtx :=
  let rc : ResponseCtx :=
    { mods := s.outputModalities, outOfBand := false, metadata := []
      instructions := s.cfg.instructions, voice := s.effectiveVoice
      format := s.cfg.outputFormat, maxOutputTokens := s.cfg.maxOutputTokens
      maxTokens := 0, incomplete := false, hasInput := false, input := [], inputErr := none
      toolCallCount := 0 }
  let rc :=
    if raw = [] then rc
    else
      match env.decode.responseConfig raw with
      | none => rc
      | some cfg => s.overrideCtx env rc cfg
  { rc with maxTokens := (env.decode.int rc.maxOutputTokens).getD 0 }

/-! ## The engine and the clock -/

def generate (env : Env F) (s : Session F) (history : List Message) : Session F × Generated :=
  ({ s with genCalls := s.genCalls + 1 }, env.generate s.genCalls s.model s.id history)

def clock (env : Env F) (s : Session F) : Session F × Int :=
  ({ s with clockReads := s.clockReads + 1 }, env.clock s.clockReads)

def millisecond : Int := 1000000

def armIdleTimer (env : Env F) (s : Session F) : Session F :=
  match s.vad with
  | none => s
  | some v =>
    if v.cfg.idleTimeoutMs ≤ 0 || v.cfg.type ≠ .serverVad || s.isTranscription || s.idleFired then s
    else
      let (s, now) := s.clock env
      { s with idleAt := now + v.cfg.idleTimeoutMs * millisecond }

/-! ## What a response emits -/

/-- What `createResponse` computes from the engine's result before it emits. -/
structure Plan where
  rc : ResponseCtx
  transcript : Bytes
  emitMessage : Bool
  toolCalls : List ToolCallSpec
  inputTokens : Nat
  outputTokens : Nat

/-- An identical call right after a tool result is consumed; any other call is
remembered. -/
def suppressToolCalls (s : Session F) (rc : ResponseCtx) (base : List Message)
    (calls : List ToolCallSpec) : Session F × List ToolCallSpec :=
  if calls = [] || rc.outOfBand then (s, calls)
  else if (base.getLast?.map (·.role)) = some "tool" && toolCallFingerprints calls = s.lastToolCalls then
    (s, [])
  else ({ s with lastToolCalls := toolCallFingerprints calls }, calls)

def planResponse (rc : ResponseCtx) (base : List Message) (content : Bytes)
    (toolCalls : List ToolCallSpec) : Plan :=
  let emitMessage := content ≠ [] || toolCalls = []
  let transcript :=
    if emitMessage && content = [] then Utf8.bytes "(no content)" else content
  let words := Strings.fields transcript
  let incomplete := rc.maxTokens > 0 && (words.length : Int) > rc.maxTokens
  { rc := { rc with toolCallCount := toolCalls.length, incomplete := incomplete }
    transcript :=
      if incomplete then Strings.join (words.take rc.maxTokens.toNat) (Utf8.bytes " ") else transcript
    emitMessage := emitMessage
    toolCalls := toolCalls
    inputTokens := countTokens base
    outputTokens := if incomplete then rc.maxTokens.toNat else words.length }

def Plan.messages (plan : Plan) : List Message :=
  if plan.rc.outOfBand then []
  else
    (if plan.emitMessage then [⟨"assistant", plan.transcript⟩] else []) ++
      plan.toolCalls.map fun _ => ⟨"assistant", []⟩

/-- The ladders of the message and of every tool call, with the items they close. -/
def buildLadder (env : Env F) (s : Session F) (respID : String) (plan : Plan) :
    Session F × List (Event F ItemRef) × List ItemRef :=
  let prev := s.previousItemID
  if plan.emitMessage then
    let (s, events, final) := s.appendMessageLadder env respID plan.transcript 0 plan.rc prev
    let prev := if plan.rc.outOfBand then prev else some final.id
    let (s, rest, finals) := appendToolLadders respID plan.rc plan.toolCalls 1 prev s
    (s, events ++ rest, final :: finals)
  else appendToolLadders respID plan.rc plan.toolCalls 0 prev s

def failedResponse (env : Env F) (s : Session F) (respID : String) (msg : Bytes) (rc : ResponseCtx) :
    Session F × List (Event F ItemRef) :=
  let failed :=
    { s.responseObject respID .failed [] rc with
      statusDetails := some (.failed msg), usage := some zeroUsage }
  (if rc.outOfBand then s else s.armIdleTimer env,
    [.responseCreated (s.responseObject respID .inProgress [] rc), .responseDone failed])

def doneObject (s : Session F) (respID : String) (plan : Plan) (items : List ItemRef) :
    ResponseObject ItemRef :=
  let status := if plan.rc.incomplete then .incomplete else .completed
  { s.responseObject respID status items plan.rc with
    statusDetails := if plan.rc.incomplete then some .incomplete else none
    usage := some (usageBlock plan.inputTokens plan.outputTokens
      (plan.emitMessage && !plan.rc.textOnly)) }

def openingEvents (s : Session F) (respID : String) (plan : Plan) : List (Event F ItemRef) :=
  [.responseCreated (s.responseObject respID .inProgress [] plan.rc),
    .rateLimitsUpdated (1000000 - plan.inputTokens - plan.outputTokens)]

def ladderUsage (ladder : List (Event F ItemRef)) : Option Usage :=
  match ladder.getLast? with
  | some (.responseDone resp) => resp.usage
  | _ => none

def beginPacedResponse (env : Env F) (s : Session F) (respID : String) (rc : ResponseCtx)
    (ladder : List (Event F ItemRef)) (onDone : List Message) :
    Session F × List (Event F ItemRef) :=
  let (s, now) := s.clock env
  let inf : Inflight F :=
    { respID := respID, rc := rc, queue := ladder.drop 2, nextAt := now + s.paceInterval
      doneItems := [], onDone := onDone, usage := ladderUsage ladder
      emitted := fun _ => none, partOpened := fun _ => false, transcript := []
      chainPrev := fun _ => none, deleted := fun _ => false }
  ({ s with inflight := some inf }, ladder.take 2)

def finishBurst (env : Env F) (s : Session F) (plan : Plan) (items : List ItemRef) : Session F :=
  let s := { s with history := s.history ++ plan.messages }
  if plan.rc.outOfBand then s
  else
    let s :=
      if plan.emitMessage && !plan.rc.textOnly then { s with respondedWithAudio := true } else s
    (items.foldl joinEmittedItem s).armIdleTimer env

def emitResponse (env : Env F) (s : Session F) (respID : String) (plan : Plan) :
    Session F × List (Event F ItemRef) :=
  let opening := s.openingEvents respID plan
  let (s, ladder, items) := s.buildLadder env respID plan
  let out := opening ++ ladder ++ [.responseDone (s.doneObject respID plan items)]
  if s.paceInterval > 0 && s.vad.isSome && !plan.rc.outOfBand then
    s.beginPacedResponse env respID plan.rc out plan.messages
  else (s.finishBurst env plan items, out)

/-- The part of `createResponse` past its guards. -/
def runResponse (env : Env F) (s : Session F) (rc : ResponseCtx) :
    Session F × List (Event F ItemRef) :=
  let s := if rc.outOfBand then s else { s with idleAt := 0 }
  let (s, respID) := s.nextID .resp
  let base := if rc.hasInput then rc.input else s.history
  let (s, result) := s.generate env (engineHistory rc.instructions base)
  match result with
  | .error msg => s.failedResponse env respID msg rc
  | .noResponse => s.failedResponse env respID (Utf8.bytes "engine returned no response") rc
  | .response resp =>
    let (s, toolCalls) := s.suppressToolCalls rc base resp.toolCalls
    s.emitResponse env respID (planResponse rc base resp.content toolCalls)

def createResponse (env : Env F) (s : Session F) (ce : ClientEvent) :
    Session F × List (Event F ItemRef) :=
  let rc := s.newResponseCtx env ce.response
  match rc.inputErr with
  | some e => (s, [.error e])
  | none =>
    if s.respondedWithAudio && !rc.outOfBand && rc.voice ≠ s.effectiveVoice then
      (s, [.error s.voiceError])
    else if s.inflight.isSome && !rc.outOfBand then
      (s, [.error (s.errorOf "conversation_already_has_active_response"
        "Conversation already has an active response in progress")])
    else s.runResponse env rc

end Session

end MockAgents.Realtime
