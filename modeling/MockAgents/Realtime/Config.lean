import MockAgents.Realtime.Types
/-!
# Session configuration

The configuration half of `session.go`: the effective settings, the merge of a
`session.update` payload, the session object and the derivation of the
turn-detection state from the configuration (`vad.go`).
-/

namespace MockAgents.Realtime

open Lib

variable {F : Type} [GoFloat F]

def defaultModel : String := "gpt-realtime"

def defaultAudioFormat : Raw :=
  Utf8.bytes "\x7b\"type\":\"audio/pcm\",\"rate\":24000\x7d"

def defaultTurnDetection : Raw :=
  Utf8.bytes "\x7b\"type\":\"server_vad\",\"threshold\":0.5,\"prefix_padding_ms\":300,\"silence_duration_ms\":500,\"create_response\":true,\"interrupt_response\":true\x7d"

def sessionDefaultInstructions : String :=
  "You are a helpful, witty, and friendly AI. " ++
    "Act like a human. Your voice and personality should be warm and engaging."

def rawOr (v def_ : Raw) : Raw := if v = [] then def_ else v

def betaAudioFormat (name : String) : Option Raw :=
  if name = "pcm16" then some defaultAudioFormat
  else if name = "g711_ulaw" then some (Utf8.bytes "\x7b\"type\":\"audio/pcmu\"\x7d")
  else if name = "g711_alaw" then some (Utf8.bytes "\x7b\"type\":\"audio/pcma\"\x7d")
  else none

def isNull (raw : Raw) : Bool :=
  Strings.trimSpace raw = [] || Strings.trimSpace raw = Utf8.bytes "null"

def SessionType.text : SessionType → String
  | .unset => ""
  | .realtime => "realtime"
  | .transcription => "transcription"

def SessionType.parse (t : String) : Option SessionType :=
  if t = "realtime" then some .realtime
  else if t = "transcription" then some .transcription
  else none

namespace Session

def isTranscription (s : Session F) : Bool := s.cfg.sessionType = .transcription

def model (s : Session F) : String :=
  if s.cfg.model ≠ "" then s.cfg.model
  else if s.initialModel ≠ "" then s.initialModel
  else defaultModel

def effectiveVoice (s : Session F) : String :=
  if s.cfg.voice ≠ "" then s.cfg.voice else "alloy"

def outputModalities (s : Session F) : List String :=
  if s.cfg.outputModalities ≠ [] then s.cfg.outputModalities else ["audio"]

def transcriptionEnabled (s : Session F) : Bool := !isNull s.cfg.transcription

def transcriptionModel (env : Env F) (s : Session F) : String :=
  (env.decode.transcriptionModel s.cfg.transcription).getD ""

def includesTranscriptionLogprobs (env : Env F) (s : Session F) : Bool :=
  match env.decode.strings s.cfg.includeFields with
  | none => false
  | some fields => fields.contains "item.input_audio_transcription.logprobs"

/-- `sessionObject`: the realtime arm, or the input side only for a transcription
session. -/
def sessionObject (s : Session F) : SessionObject F :=
  let null : Raw := Utf8.bytes "null"
  let expiresAt := if s.expiresAt > 0 then some s.expiresAt else none
  let input : SessionObject F :=
    { id := s.id, transcription := true, model := "", outputModalities := [], instructions := "",
      tools := [], toolChoice := [], maxOutputTokens := [], tracing := [], truncation := [],
      prompt := [], includeFields := rawOr s.cfg.includeFields null,
      inputFormat := rawOr s.cfg.inputFormat defaultAudioFormat,
      inputTranscription := rawOr s.cfg.transcription null,
      turnDetection := rawOr s.cfg.turnDetection null,
      noiseReduction := rawOr s.cfg.noiseReduction null,
      outputFormat := [], voice := "", speed := GoFloat.ofInt 0, expiresAt := expiresAt }
  if s.isTranscription then input
  else
    { input with
      transcription := false
      model := s.model
      outputModalities := s.outputModalities
      instructions :=
        if s.cfg.instructions = "" then sessionDefaultInstructions else s.cfg.instructions
      tools := rawOr s.cfg.tools (Utf8.bytes "[]")
      toolChoice := rawOr s.cfg.toolChoice (Utf8.bytes "\"auto\"")
      maxOutputTokens := rawOr s.cfg.maxOutputTokens (Utf8.bytes "\"inf\"")
      tracing := rawOr s.cfg.tracing null
      truncation := rawOr s.cfg.truncation (Utf8.bytes "\"auto\"")
      prompt := rawOr s.cfg.prompt null
      outputFormat := rawOr s.cfg.outputFormat defaultAudioFormat
      voice := s.effectiveVoice
      speed := if GoFloat.eq s.cfg.speed (GoFloat.ofInt 0) then GoFloat.ofInt 1 else s.cfg.speed }

end Session

/-! ## Merging an update -/

def overrideRaw (old new : Raw) : Raw := if new = [] then old else new

def overrideText (old new : String) : String := if new = "" then old else new

/-- The body of `applyConfig` once the payload is decoded. -/
def SessionConfig.merge (cfg : SessionConfig F) (u : SessionUpdate F) : SessionConfig F :=
  let input := u.audioInput.getD ⟨[], [], [], []⟩
  let outVoice := (u.audioOutput.map (·.voice)).getD ""
  let outFormat := (u.audioOutput.map (·.format)).getD []
  { sessionType :=
      -- first set wins: the union arm is fixed once it is set
      if cfg.sessionType = .unset then (SessionType.parse u.type).getD .unset else cfg.sessionType
    model := overrideText cfg.model u.model
    voice := overrideText (overrideText cfg.voice u.voice) outVoice
    instructions := overrideText cfg.instructions u.instructions
    outputModalities :=
      if u.outputModalities ≠ [] then u.outputModalities
      else if u.modalities ≠ [] then u.modalities
      else cfg.outputModalities
    tools := overrideRaw cfg.tools u.tools
    toolChoice := overrideRaw cfg.toolChoice u.toolChoice
    maxOutputTokens := overrideRaw cfg.maxOutputTokens u.maxOutputTokens
    transcription :=
      overrideRaw (overrideRaw cfg.transcription u.inputAudioTranscription) input.transcription
    -- the beta aliases apply only where the nested field is absent
    turnDetection :=
      overrideRaw (if u.turnDetection ≠ [] ∧ input.turnDetection = [] then u.turnDetection
        else cfg.turnDetection) input.turnDetection
    inputFormat :=
      overrideRaw (if input.format = [] then (betaAudioFormat u.inputAudioFormat).getD cfg.inputFormat
        else cfg.inputFormat) input.format
    outputFormat :=
      overrideRaw (if outFormat = [] then (betaAudioFormat u.outputAudioFormat).getD cfg.outputFormat
        else cfg.outputFormat) outFormat
    speed := (u.audioOutput.bind (·.speed)).getD cfg.speed
    tracing := overrideRaw cfg.tracing u.tracing
    truncation := overrideRaw cfg.truncation u.truncation
    prompt := overrideRaw cfg.prompt u.prompt
    includeFields := overrideRaw cfg.includeFields u.includeFields
    noiseReduction := overrideRaw cfg.noiseReduction input.noiseReduction }

def Session.applyConfig (env : Env F) (s : Session F) (raw : Raw) : Session F :=
  if raw = [] then s
  else
    match env.decode.sessionUpdate raw with
    | none => s
    | some u => { s with cfg := s.cfg.merge u }

/-! ## Deriving the turn detection -/

/-- The zero `vadConfig`. -/
def VadConfig.zero : VadConfig F :=
  ⟨.other "", GoFloat.ofInt 0, 0, 0, none, none, 0, ""⟩

def VadConfig.defaults : VadConfig F :=
  { (VadConfig.zero : VadConfig F) with
    threshold := GoFloat.lit 5 1, prefixPaddingMs := 300, silenceDurationMs := 500 }

def VadConfig.interrupts (c : VadConfig F) : Bool := c.interruptResponse.getD true

def idleConfigured : Option (VadState F) → Bool
  | none => false
  | some v => v.cfg.type = .serverVad && v.cfg.idleTimeoutMs > 0

/-- The decoded configuration, with the silence window semantic VAD's eagerness
stands for; `none` turns detection off. -/
def vadConfigOf (env : Env F) (raw : Raw) : Option (VadConfig F) :=
  if isNull raw then none
  else
    match env.decode.vadConfig VadConfig.defaults raw with
    | none => none
    | some cfg =>
      match cfg.type with
      | .serverVad => some cfg
      | .semanticVad =>
        some { cfg with
          silenceDurationMs :=
            if cfg.eagerness = "high" then 2000
            else if cfg.eagerness = "low" then 8000
            else 4000 }
      | .other _ => none

/-- The state for a new configuration: audio time always carries over, a speech
cycle only when the detector type is unchanged. -/
def VadState.reconfigure (old : Option (VadState F)) (cfg : VadConfig F) : VadState F :=
  let fresh : VadState F := ⟨cfg, GoFloat.ofInt 0, false, GoFloat.ofInt 0, GoFloat.ofInt 0, ""⟩
  match old with
  | none => fresh
  | some v =>
    if v.cfg.type = cfg.type then { v with cfg := cfg }
    else { fresh with totalMs := v.totalMs }

def Session.refreshVAD (env : Env F) (s : Session F) : Session F :=
  let vad := (vadConfigOf env s.cfg.turnDetection).map (VadState.reconfigure s.vad)
  if idleConfigured vad then { s with vad := vad }
  else { s with vad := vad, idleAt := 0, idleFired := false }

end MockAgents.Realtime
