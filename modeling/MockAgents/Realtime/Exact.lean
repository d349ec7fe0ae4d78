import MockAgents.Realtime.Session
/-!
# Exact arithmetic

The rationals as an instance of the float operations, and the decoders a run with
listed payloads needs, so that runs of the model can be evaluated.
-/

namespace MockAgents.Realtime

open Lib

/-- Toward zero. -/
def ratToInt (x : Rat) : Int := x.num.tdiv x.den

/-- Half away from zero. -/
def ratRound (x : Rat) : Int :=
  if x < 0 then ratToInt (x - mkRat 1 2) else ratToInt (x + mkRat 1 2)

instance : GoFloat Rat where
  ofInt n := n
  lit m e := mkRat m (10 ^ e)
  add x y := x + y
  sub x y := x - y
  mul x y := x * y
  div x y := x / y
  lt x y := x < y
  le x y := x ≤ y
  toInt := ratToInt
  round := ratRound
  trunc x := ratToInt x
  eq x y := x = y

def SessionUpdate.absent : SessionUpdate Rat :=
  { type := "", model := "", voice := "", instructions := "", modalities := []
    outputModalities := [], inputAudioTranscription := [], tools := [], toolChoice := []
    maxOutputTokens := [], tracing := [], truncation := [], prompt := [], includeFields := []
    turnDetection := [], inputAudioFormat := "", outputAudioFormat := ""
    audioInput := none, audioOutput := none }

/-- The decoders for the listed session payloads, each with the update it encodes,
the listed item payloads and the listed turn detections; they decode no other
payload but the default turn detection. -/
def listedDecoders (updates : List (Raw × SessionUpdate Rat))
    (detections : List (Raw × (VadConfig Rat → VadConfig Rat))) (items : List (Raw × ParsedItem)) :
    Decoders Rat where
  sessionUpdate raw := updates.lookup raw
  object _ := none
  sections _ := none
  turnDetectionUpdate raw :=
    (updates.lookup raw).map fun u => (u.turnDetection, u.audioInput.map (·.turnDetection))
  vadConfig base raw :=
    if raw = defaultTurnDetection then
      some { base with
        type := .serverVad, threshold := mkRat 1 2, prefixPaddingMs := 300, silenceDurationMs := 500
        createResponse := some true, interruptResponse := some true }
    else (detections.lookup raw).map fun f => f base
  sessionTypeUpdate raw := (updates.lookup raw).map (·.type)
  maxOutputTokensUpdate raw := (updates.lookup raw).map (·.maxOutputTokens)
  float _ := none
  int _ := none
  responseConfig _ := none
  array _ := none
  parsedItem _ raw := items.lookup raw
  partTypes _ := none
  partTexts _ := none
  parts _ := none
  transcriptionModel _ := none
  strings _ := none
  formatType _ := none

/-- The engine that always answers with one content, and a clock that stands still. -/
def answering (content : Bytes) (decode : Decoders Rat) : Env Rat where
  generate _ _ _ _ := .response ⟨content, []⟩
  clock _ := 1
  printable _ := true
  formatMs x := toString (ratRound x)
  synthAudioChunk _ := []
  decode := decode

def idleDetection : Raw := Utf8.bytes "\x7b\"type\":\"server_vad\",\"idle_timeout_ms\":5000\x7d"

def idlePayload : Raw := Utf8.bytes "\x7b\"turn_detection\":" ++ idleDetection ++ Utf8.bytes "\x7d"

/-- The decoders for the idle detection and further listed payloads. -/
def idleDecoders (updates : List (Raw × SessionUpdate Rat)) (items : List (Raw × ParsedItem)) :
    Decoders Rat :=
  listedDecoders ((idlePayload, { SessionUpdate.absent with turnDetection := idleDetection }) :: updates)
    [(idleDetection, fun base => { base with type := .serverVad, idleTimeoutMs := 5000 })] items

end MockAgents.Realtime
