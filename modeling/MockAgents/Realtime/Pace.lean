import MockAgents.Realtime.Response
/-!
# Pacing, cancellation and the idle timeout

`pace.go`: the emission of a queued ladder by `Tick`, the close-out of a cancelled
response, the truncation of an item still streaming, and the idle flow.
-/

namespace MockAgents.Realtime

open Lib

variable {F : Type} [GoFloat F]

/-! ## Rewriting payloads -/

def Part.rewrite (emitted : Bytes) : Part → Part
  | .text _ => .text emitted
  | .audio _ => .audio emitted

/-- A field that is present takes the emitted text. -/
def Field.rewrite (emitted : Bytes) : Field → Field
  | .absent => .absent
  | _ => .text emitted

def ContentPart.rewrite (emitted : Bytes) (p : ContentPart) : ContentPart :=
  { p with text := p.text.rewrite emitted, transcript := p.transcript.rewrite emitted }

def ItemBody.rewrite (emitted : Bytes) : ItemBody → ItemBody
  | .message role content => .message role (content.map (ContentPart.rewrite emitted))
  | body => body

def LadderEvent.itemID : LadderEvent ItemRef → String
  | .outputItemAdded item | .outputItemDone item => item.id
  | .contentPartAdded id _ | .contentPartDone id _ | .outputTextDelta id _ | .outputTextDone id _
  | .audioTranscriptDelta id _ | .audioTranscriptDone id _ | .outputAudioDelta id _
  | .outputAudioDone id | .argumentsDelta id _ _ | .argumentsDone id _ _ => id

def LadderEvent.isDelta {ι : Type} : LadderEvent ι → Bool
  | .outputTextDelta .. | .audioTranscriptDelta .. | .outputAudioDelta .. | .argumentsDelta .. => true
  | _ => false

/-! ## Emission -/

def Inflight.emittedText (inf : Inflight F) (id : String) : Bytes := (inf.emitted id).getD []

def Inflight.addEmitted (inf : Inflight F) (id : String) (delta : Bytes) : Inflight F :=
  if id = "" then inf
  else { inf with emitted := Function.update inf.emitted id (some (inf.emittedText id ++ delta)) }

/-- What emitting a ladder event records for a later cancellation. -/
def Inflight.track (inf : Inflight F) : LadderEvent ItemRef → Inflight F
  | .contentPartAdded id _ =>
    if id = "" then inf else { inf with partOpened := Function.update inf.partOpened id true }
  | .outputTextDelta id delta | .audioTranscriptDelta id delta =>
    if id = "" then inf
    else { inf.addEmitted id delta with transcript := inf.transcript ++ delta }
  | .argumentsDelta id _ delta => inf.addEmitted id delta
  | .outputItemDone item => { inf with doneItems := inf.doneItems ++ [item] }
  | _ => inf

namespace Session

/-- `rewriteChainPrev`: the tail at emission, recorded for the paired `.done`. -/
def rewriteChainPrev (s : Session F) (inf : Inflight F) (item : ItemRef) : Inflight F :=
  if item.id = "" then inf
  else { inf with chainPrev := Function.update inf.chainPrev item.id (some s.previousItemID) }

def emitQueued (s : Session F) (inf : Inflight F) :
    Event F ItemRef → Session F × Inflight F × List (Event F ItemRef)
  | .itemAdded _ item =>
    (s.joinEmittedItem item, s.rewriteChainPrev inf item, [.itemAdded s.previousItemID item])
  | .itemDone prev item =>
    -- a deleted item's mirror does not close out
    if inf.deleted item.id then (s, inf, [])
    else (s.rememberItem item, inf, [.itemDone ((inf.chainPrev item.id).getD prev) item])
  | .ladder respID i (.outputAudioDelta id delta) =>
    ({ s with respondedWithAudio := true }, inf, [.ladder respID i (.outputAudioDelta id delta)])
  | .ladder respID i ev => (s, inf.track ev, [.ladder respID i ev])
  | ev => (s, inf, [ev])

/-- What follows the last event of a paced response. -/
def completeResponse (env : Env F) (s : Session F) (inf : Inflight F) :
    Session F × List (Event F ItemRef) :=
  let s := { s with history := s.history ++ inf.onDone, inflight := none }
  if s.pendingResponse then createResponse env { s with pendingResponse := false } {}
  else (s.armIdleTimer env, [])

/-- The loop of `Tick` over the queue of the response in flight: one event each
round, while the next one is due. -/
def tickLoop (env : Env F) (now : Int) :
    List (Event F ItemRef) → Session F → Inflight F → Session F × List (Event F ItemRef)
  | [], s, inf => ({ s with inflight := some inf }, [])
  | ev :: rest, s, inf =>
    let (s, inf, out) := s.emitQueued { inf with queue := rest } ev
    if rest = [] then
      let (s, more) := s.completeResponse env inf
      (s, out ++ more)
    else
      let inf := { inf with nextAt := inf.nextAt + s.paceInterval }
      if now < inf.nextAt then ({ s with inflight := some inf }, out)
      else
        let (s, more) := tickLoop env now rest s inf
        (s, out ++ more)

/-- The paced emission of `Tick`. -/
def drainQueue (env : Env F) (s : Session F) (now : Int) : Session F × List (Event F ItemRef) :=
  match s.inflight with
  | none => (s, [])
  | some inf => if now < inf.nextAt then (s, []) else tickLoop env now inf.queue s inf

/-! ## Cancellation -/

def closeOutItem (inf : Inflight F) (id : String) (data : ItemData) : ItemData :=
  { status := .incomplete
    body :=
      match data.body with
      | .functionCall name callID _ => .functionCall name callID (inf.emittedText id)
      | .message role content =>
        if inf.partOpened id then
          (ItemBody.message role content).rewrite (inf.emittedText id)
        else .message role []
      | body => body }

/-- One event of the drain of `cancelInflight`; `none` ends it. -/
def closeOut (s : Session F) (inf : Inflight F) :
    Event F ItemRef → Option (Session F × Inflight F × List (Event F ItemRef))
  | .transcriptionDelta .. => some (s, inf, [])
  | .responseDone _ => none
  | .itemAdded _ item =>
    some (s.joinEmittedItem item, s.rewriteChainPrev inf item, [.itemAdded s.previousItemID item])
  | .itemDone prev item =>
    if inf.deleted item.id then some (s, inf, [])
    else some (s.rememberItem item, inf, [.itemDone ((inf.chainPrev item.id).getD prev) item])
  | .ladder respID i ev =>
    let closed (opened : Bool) (ev : LadderEvent ItemRef) : List (Event F ItemRef) :=
      if opened then [.ladder respID i ev] else []
    match ev with
    | .outputItemAdded _ => none
    | .outputTextDelta .. | .audioTranscriptDelta .. | .outputAudioDelta .. | .argumentsDelta ..
    | .contentPartAdded .. => some (s, inf, [])
    | .outputTextDone id _ =>
      some (s, inf, closed (inf.partOpened id) (.outputTextDone id (inf.emittedText id)))
    | .audioTranscriptDone id _ =>
      some (s, inf, closed (inf.partOpened id) (.audioTranscriptDone id (inf.emittedText id)))
    | .outputAudioDone id => some (s, inf, closed (inf.partOpened id) (.outputAudioDone id))
    | .contentPartDone id part =>
      some (s, inf, closed (inf.partOpened id)
        (.contentPartDone id (part.rewrite (inf.emittedText id))))
    | .argumentsDone id callID _ =>
      some (s, inf, closed (inf.emitted id).isSome
        (.argumentsDone id callID (inf.emittedText id)))
    | .outputItemDone item =>
      some (s.modify item.loc (closeOutItem inf item.id),
        { inf with doneItems := inf.doneItems ++ [item] },
        [.ladder respID i (.outputItemDone item)])
  | ev => some (s, inf, [ev])

def drainCancelled : List (Event F ItemRef) → Session F → Inflight F →
    Session F × Inflight F × List (Event F ItemRef)
  | [], s, inf => (s, inf, [])
  | ev :: rest, s, inf =>
    match s.closeOut inf ev with
    | none => (s, inf, [])
    | some (s, inf, out) =>
      let (s, inf, more) := drainCancelled rest s inf
      (s, inf, out ++ more)

def completedText (data : ItemData) : Option Message :=
  match data with
  | ⟨.completed, .message role content⟩ =>
    let text := storedItemText (.message role content)
    if text = [] then none else some ⟨"assistant", text⟩
  | _ => none

def cancelledObject (s : Session F) (inf : Inflight F) (reason : CancelReason) :
    ResponseObject ItemRef :=
  { s.responseObject inf.respID .cancelled inf.doneItems inf.rc with
    statusDetails := some (.cancelled reason)
    usage := inf.usage.map fun u =>
      usageBlock u.inputTokens (wordCount inf.transcript) (!inf.rc.textOnly) }

def cancelInflight (s : Session F) (inf : Inflight F) (reason : CancelReason) :
    Session F × List (Event F ItemRef) :=
  let s :=
    { s with
      inflight := none
      pendingResponse := if reason = .turnDetected then false else s.pendingResponse
      idleAt := 0 }
  let (s, inf, out) := drainCancelled inf.queue s inf
  let entries := inf.doneItems.filterMap fun item => completedText (s.load item.loc)
  ({ s with history := s.history ++ entries },
    out ++ [.responseDone (s.cancelledObject inf reason)])

/-! ## Truncating an item that is still streaming -/

/-- The rewrite of one queued event; a delta of the item is dropped. -/
def truncateEvent (itemID : String) (emitted : Bytes) (s : Session F) :
    Event F ItemRef → Session F × List (Event F ItemRef)
  | .ladder respID i ev =>
    if ev.itemID ≠ itemID then (s, [.ladder respID i ev])
    else if ev.isDelta then (s, [])
    else
      match ev with
      | .outputTextDone id _ => (s, [.ladder respID i (.outputTextDone id emitted)])
      | .audioTranscriptDone id _ => (s, [.ladder respID i (.audioTranscriptDone id emitted)])
      | .contentPartDone id part =>
        (s, [.ladder respID i (.contentPartDone id (part.rewrite emitted))])
      | .outputItemDone item =>
        (s.modify item.loc fun d => { d with body := d.body.rewrite emitted },
          [.ladder respID i (.outputItemDone item)])
      | ev => (s, [.ladder respID i ev])
  | .itemDone prev item =>
    if item.id ≠ itemID then (s, [.itemDone prev item])
    else
      (s.modify item.loc fun d => { d with body := d.body.rewrite emitted }, [.itemDone prev item])
  | .transcriptionDelta id delta lp =>
    (s, if id ≠ itemID then [.transcriptionDelta id delta lp] else [])
  | ev => (s, [ev])

def truncateQueue (itemID : String) (emitted : Bytes) :
    List (Event F ItemRef) → Session F → Session F × List (Event F ItemRef)
  | [], s => (s, [])
  | ev :: rest, s =>
    let (s, kept) := truncateEvent itemID emitted s ev
    let (s, more) := truncateQueue itemID emitted rest s
    (s, kept ++ more)

/-- The usage of the final event bills the truncated transcript. -/
def rebill (emitted : Bytes) (audio : Bool) : Event F ItemRef → Event F ItemRef
  | .responseDone resp =>
    .responseDone { resp with
      usage := resp.usage.map fun u => usageBlock u.inputTokens (wordCount emitted) audio }
  | ev => ev

def truncateInflightItem (s : Session F) (itemID : String) : Session F :=
  match s.inflight with
  | none => s
  | some inf =>
    let emitted := inf.emittedText itemID
    let (s, queue) := truncateQueue itemID emitted inf.queue s
    let onDone :=
      if inf.rc.outOfBand then inf.onDone
      else
        (if emitted = [] then [] else [⟨"assistant", emitted⟩]) ++
          List.replicate inf.rc.toolCallCount ⟨"assistant", []⟩
    { s with
      inflight := some { inf with
        queue := queue.map (rebill emitted (!inf.rc.textOnly)), onDone := onDone } }

/-! ## The idle timeout -/

def idleTimeout (env : Env F) (s : Session F) : Session F × List (Event F ItemRef) :=
  match s.vad with
  | none => (s, [])
  | some v =>
    if v.cfg.type ≠ .serverVad || v.cfg.idleTimeoutMs ≤ 0 then (s, [])
    else
      let (s, prev, id) := newConversationItem { s with idleFired := true }
      let (s, item) := s.storeTurn id .nonString []
      let turn : Message := ⟨"user", Utf8.bytes "[silence]"⟩
      let (s, more) := createResponse env { s with history := s.history ++ [turn] } {}
      (s, [.timeoutTriggered (GoFloat.toInt v.totalMs) id, .bufferCommitted prev id] ++
        conversationItemEvents prev item ++ more)

def fireIdle (env : Env F) (s : Session F) (now : Int) : Session F × List (Event F ItemRef) :=
  if s.inflight.isNone && s.idleAt ≠ 0 && s.idleAt ≤ now then
    idleTimeout env { s with idleAt := 0 }
  else (s, [])

end Session

end MockAgents.Realtime
