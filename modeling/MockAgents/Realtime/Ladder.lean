import MockAgents.Realtime.Items
/-!
# Response ladders

The texts of a response, its chunking into deltas, and the event ladder of each
output item.
-/

namespace MockAgents.Realtime

open Lib

variable {F : Type} [GoFloat F]

def wordCount (s : Bytes) : Nat := (Strings.fields s).length

def countTokens (msgs : List Message) : Nat := (msgs.map fun m => wordCount m.content).sum

/-- Every word keeps its trailing space, the last one has none. -/
def spaced : List Bytes → List Bytes
  | [] => []
  | [f] => [f]
  | f :: g :: rest => (f ++ Utf8.bytes " ") :: spaced (g :: rest)

def chunkText (s : Bytes) : List Bytes :=
  match Strings.fields s with
  | [] => [s]
  | fields => spaced fields

/-- The value of a rune in `[]rune(s)`: an invalid byte becomes U+FFFD. -/
def runeValue : Utf8.Rune → Char
  | .char c => c
  | .bad _ => Char.ofNat 0xFFFD

/-- The loop of `chunkArgs` over the runes. -/
def sliceRunes : Nat → List Char → List (List Char)
  | 0, _ => []
  | _ + 1, [] => []
  | fuel + 1, r :: rs => (r :: rs).take 20 :: sliceRunes fuel ((r :: rs).drop 20)

def chunkArgs (s : Bytes) : List Bytes :=
  if s = [] then [[]]
  else
    let runes := (Utf8.runes s).map runeValue
    (sliceRunes runes.length runes).map Utf8.encode

def marshalArgs (arguments : Option Bytes) : Bytes := arguments.getD (Utf8.bytes "\x7b\x7d")

/-- The argument text of a tool call: `raw_arguments` verbatim when it is set. -/
def ToolCallSpec.args (tc : ToolCallSpec) : Bytes :=
  if tc.rawArguments = [] then marshalArgs tc.arguments else tc.rawArguments

def toolCallFingerprints (calls : List ToolCallSpec) : List Bytes :=
  calls.map fun tc => tc.name ++ 0 :: tc.args

def engineHistory (instructions : String) (base : List Message) : List Message :=
  if instructions = "" then base else ⟨"system", Utf8.bytes instructions⟩ :: base

def Field.textOr : Field → Bytes
  | .text b => b
  | _ => []

def ContentPart.spoken (p : ContentPart) : Bytes :=
  if p.text.textOr = [] then p.transcript.textOr else p.text.textOr

def storedItemText : ItemBody → Bytes
  | .message _ content =>
    Strings.join ((content.map ContentPart.spoken).filter (· ≠ [])) (Utf8.bytes " ")
  | _ => []

def storedItemToMessage (body : ItemBody) : Option Message :=
  match body with
  | .functionCallOutput _ output => some ⟨"tool", output⟩
  | .functionCall .. => some ⟨"assistant", []⟩
  | .message role _ =>
    let text := storedItemText body
    if text = [] then none else some ⟨if role = "" then "user" else role, text⟩
  | .other _ => none

/-! ## Parsed items -/

def ParsedItem.text (env : Env F) (it : ParsedItem) : Bytes :=
  match env.decode.partTexts it.content with
  | none => []
  | some parts =>
    Strings.join ((parts.map fun (text, transcript) => if text = [] then transcript else text).filter
      (· ≠ [])) (Utf8.bytes " ")

def ParsedItem.echoContent (env : Env F) (it : ParsedItem) : List ContentPart :=
  (env.decode.parts it.content).getD []

def parseItem (env : Env F) (raw : Raw) : ParsedItem :=
  let item : ParsedItem := {}
  if raw = [] then item
  else
    match env.decode.parsedItem item raw with
    | none => item
    | some it =>
      { it with
        type := if it.type = "" then "message" else it.type
        role := if it.role = "" then "user" else it.role }

/-! ## Envelopes -/

def usageBlock (inputTokens outputTokens : Nat) (audioOutput : Bool) : Usage :=
  { inputTokens := inputTokens, outputTokens := outputTokens
    totalTokens := inputTokens + outputTokens
    textOutputTokens := if audioOutput then 0 else outputTokens
    audioOutputTokens := if audioOutput then outputTokens else 0 }

def zeroUsage : Usage := usageBlock 0 0 false

/-- A response streams text when its modalities omit audio. -/
def ResponseCtx.textOnly (rc : ResponseCtx) : Bool := !rc.mods.contains "audio"

def Session.responseObject (s : Session F) (respID : String) (status : ResponseStatus)
    (output : List ItemRef) (rc : ResponseCtx) : ResponseObject ItemRef :=
  { id := respID, status := status, statusDetails := none, output := output
    outputModalities := rc.mods
    conversationID := if rc.outOfBand then none else some ("conv_" ++ s.id)
    metadata := rc.metadata, usage := none, voice := rc.voice
    format := rawOr rc.format defaultAudioFormat
    maxOutputTokens := rawOr rc.maxOutputTokens (Utf8.bytes "\"inf\"") }

/-! ## Ladders -/

/-- The ladder of one output item: the item opens, is mirrored into the
conversation unless the response is out of band, streams its body, and closes. -/
def itemLadder (respID : String) (outputIndex : Nat) (outOfBand : Bool) (prev : Option String)
    (inProgress final : ItemRef) (body : List (LadderEvent ItemRef)) : List (Event F ItemRef) :=
  [.ladder respID outputIndex (.outputItemAdded inProgress)] ++
    (if outOfBand then [] else [.itemAdded prev inProgress]) ++
    body.map (.ladder respID outputIndex) ++
    [.ladder respID outputIndex (.outputItemDone final)] ++
    (if outOfBand then [] else [.itemDone prev final])

def messageBody (env : Env F) (textOnly : Bool) (itemID : String) (transcript : Bytes) :
    List (LadderEvent ItemRef) :=
  if textOnly then
    [.contentPartAdded itemID (.text [])] ++
      (chunkText transcript).map (.outputTextDelta itemID) ++
      [.outputTextDone itemID transcript, .contentPartDone itemID (.text transcript)]
  else
    [.contentPartAdded itemID (.audio [])] ++
      ((chunkText transcript).flatMap fun chunk =>
        [.audioTranscriptDelta itemID chunk, .outputAudioDelta itemID (env.synthAudioChunk chunk)]) ++
      [.outputAudioDone itemID, .audioTranscriptDone itemID transcript,
        .contentPartDone itemID (.audio transcript)]

def messageContent (textOnly : Bool) (transcript : Bytes) : ContentPart :=
  if textOnly then { type := "output_text", text := .text transcript }
  else { type := "output_audio", transcript := .text transcript }

def functionCallBody (itemID callID : String) (args : Bytes) : List (LadderEvent ItemRef) :=
  (chunkArgs args).map (.argumentsDelta itemID callID) ++ [.argumentsDone itemID callID args]

namespace Session

def appendMessageLadder (env : Env F) (s : Session F) (respID : String) (transcript : Bytes)
    (outputIndex : Nat) (rc : ResponseCtx) (prev : Option String) :
    Session F × List (Event F ItemRef) × ItemRef :=
  let (s, itemID) := s.nextID .msg
  let (s, inProgress) := s.alloc itemID ⟨.inProgress, .message "assistant" []⟩
  let (s, final) := s.alloc itemID
    ⟨if rc.incomplete then .incomplete else .completed,
      .message "assistant" [messageContent rc.textOnly transcript]⟩
  (s, itemLadder respID outputIndex rc.outOfBand prev inProgress final
    (messageBody env rc.textOnly itemID transcript), final)

def appendFunctionCallLadder (s : Session F) (respID : String) (tc : ToolCallSpec)
    (outputIndex : Nat) (rc : ResponseCtx) (prev : Option String) :
    Session F × List (Event F ItemRef) × ItemRef :=
  let (s, itemID) := s.nextID .fc
  let (s, callID) := s.nextID .call
  let (s, inProgress) := s.alloc itemID ⟨.inProgress, .functionCall tc.name callID []⟩
  let (s, final) := s.alloc itemID ⟨.completed, .functionCall tc.name callID tc.args⟩
  (s, itemLadder respID outputIndex rc.outOfBand prev inProgress final
    (functionCallBody itemID callID tc.args), final)

def appendToolLadders (respID : String) (rc : ResponseCtx) :
    List ToolCallSpec → Nat → Option String → Session F →
      Session F × List (Event F ItemRef) × List ItemRef
  | [], _, _, s => (s, [], [])
  | tc :: tcs, outputIndex, prev, s =>
    let (s, events, final) := s.appendFunctionCallLadder respID tc outputIndex rc prev
    let prev := if rc.outOfBand then prev else some final.id
    let (s, rest, finals) := appendToolLadders respID rc tcs (outputIndex + 1) prev s
    (s, events ++ rest, final :: finals)

end Session

end MockAgents.Realtime
