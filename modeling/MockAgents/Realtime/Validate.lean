import MockAgents.Realtime.Config
/-!
# Rejecting client events

The error object and the checks that reject a `session.update` or a
`conversation.item.create` before it has any effect.  A check answers with the
error it would send, or `none`.
-/

namespace MockAgents.Realtime

open Lib

variable {F : Type} [GoFloat F]

/-- The `%q` verb on a text decoded from JSON. -/
def Env.quote (env : Env F) (text : String) : String :=
  Strconv.quote env.printable (Utf8.bytes text)

namespace Session

def errorBody (s : Session F) (type : String) (code : Option String) (msg : String)
    (param : Option String) : ErrorBody :=
  { type := type, code := code, message := msg, param := param,
    eventID := if s.lastClientEventID = "" then none else some s.lastClientEventID }

def errorOf (s : Session F) (code msg : String) : ErrorBody :=
  s.errorBody "invalid_request_error" (some code) msg none

def errorParam (s : Session F) (code msg param : String) : ErrorBody :=
  s.errorBody "invalid_request_error" (some code) msg (some param)

/-- A rejection with a null code. -/
def errorNoCode (s : Session F) (msg : String) : ErrorBody :=
  s.errorBody "invalid_request_error" none msg none

/-! ## `session.update` -/

def gaSessionKeys : List String :=
  ["type", "model", "instructions", "output_modalities", "tools", "tool_choice",
    "max_output_tokens", "tracing", "truncation", "prompt", "include", "audio"]

def gaAudioInputKeys : List String := ["format", "transcription", "turn_detection", "noise_reduction"]

def gaAudioOutputKeys : List String := ["format", "voice", "speed"]

def unknownAudioKey : List (String × List String) → Option String
  | [] => none
  | (section_, keys) :: rest =>
    let allowed :=
      if section_ = "input" then some gaAudioInputKeys
      else if section_ = "output" then some gaAudioOutputKeys
      else none
    match allowed with
    | none => some ("session.audio." ++ section_)
    | some allowed =>
      match keys.find? (!allowed.contains ·) with
      | some k => some ("session.audio." ++ section_ ++ "." ++ k)
      | none => unknownAudioKey rest

def validateStrictUpdate (env : Env F) (s : Session F) (raw : Raw) : Option ErrorBody :=
  let unknown (path : String) : ErrorBody :=
    s.errorParam "unknown_parameter" ("Unknown parameter: '" ++ path ++ "'.") path
  if !s.strict || raw = [] then none
  else
    match env.decode.object raw with
    | none => none
    | some m =>
      match m.find? fun kv => !gaSessionKeys.contains kv.1 with
      | some kv => some (unknown ("session." ++ kv.1))
      | none =>
        match (m.find? (·.1 = "audio")).bind fun kv => env.decode.sections kv.2 with
        | none => none
        | some audio => (unknownAudioKey audio).map unknown

def turnDetectionPath : String := "session.audio.input.turn_detection"

/-- The check of a decoded `turn_detection`: the offending field and the message. -/
def checkVadConfig (env : Env F) (cfg : VadConfig F) : Option (String × String) :=
  let typeError (name : String) := ("type",
    "invalid turn_detection type " ++ env.quote name ++ ": expected server_vad or semantic_vad")
  let rest : Option (String × String) :=
    if GoFloat.lt cfg.threshold (GoFloat.ofInt 0) || GoFloat.lt (GoFloat.ofInt 1) cfg.threshold then
      some ("threshold", "threshold must be between 0.0 and 1.0")
    else if cfg.prefixPaddingMs < 0 then
      some ("prefix_padding_ms", "prefix_padding_ms must not be negative")
    else if cfg.silenceDurationMs < 0 then
      some ("silence_duration_ms", "silence_duration_ms must not be negative")
    else if cfg.idleTimeoutMs < 0 then
      some ("idle_timeout_ms", "idle_timeout_ms must not be negative")
    else if cfg.type = .semanticVad && !(["", "auto", "low", "medium", "high"].contains cfg.eagerness) then
      some ("eagerness", "invalid eagerness " ++ env.quote cfg.eagerness ++
        ": expected low, medium, high, or auto")
    else none
  match cfg.type with
  | .other name => some (typeError name)
  | _ => rest

def validateTurnDetection (env : Env F) (s : Session F) (raw : Raw) : Option ErrorBody :=
  if raw = [] then none
  else
    match env.decode.turnDetectionUpdate raw with
    | none => none
    | some (flat, nested) =>
      -- the nested form wins over the beta alias, as in `applyConfig`
      let td := overrideRaw flat (nested.getD [])
      if isNull td then none
      else
        match env.decode.vadConfig VadConfig.zero td with
        | none =>
          some (s.errorParam "invalid_value" "turn_detection must be an object or null"
            turnDetectionPath)
        | some cfg =>
          (checkVadConfig env cfg).map fun (field, msg) =>
            s.errorParam "invalid_value" msg (turnDetectionPath ++ "." ++ field)

def voiceError (s : Session F) : ErrorBody :=
  s.errorOf "cannot_update_voice"
    "Cannot update a conversation's voice if assistant audio is present."

def validateVoiceChange (env : Env F) (s : Session F) (raw : Raw) : Option ErrorBody :=
  if !s.respondedWithAudio || raw = [] then none
  else
    match env.decode.sessionUpdate raw with
    | none => none
    | some u =>
      let voice := overrideText u.voice ((u.audioOutput.map (·.voice)).getD "")
      if voice = "" || voice = s.effectiveVoice then none else some s.voiceError

def maxOutputTokensMessage : String :=
  "max_output_tokens must be an integer between 1 and 4096, or \"inf\""

def validMaxOutputTokens (env : Env F) (raw : Raw) : Bool :=
  let trimmed := Strings.trimSpace raw
  if trimmed = [] || trimmed = Utf8.bytes "\"inf\"" then true
  else
    match env.decode.float raw with
    | none => false
    | some n =>
      GoFloat.eq n (GoFloat.trunc n) && GoFloat.le (GoFloat.ofInt 1) n &&
        GoFloat.le n (GoFloat.ofInt 4096)

def validateSessionMaxOutputTokens (env : Env F) (s : Session F) (raw : Raw) : Option ErrorBody :=
  if raw = [] then none
  else
    match env.decode.maxOutputTokensUpdate raw with
    | none => none
    | some tokens =>
      if validMaxOutputTokens env tokens then none
      else some (s.errorParam "invalid_value" maxOutputTokensMessage "session.max_output_tokens")

def validateSessionType (env : Env F) (s : Session F) (raw : Raw) : Option ErrorBody :=
  if s.cfg.sessionType = .unset || raw = [] then none
  else
    match env.decode.sessionTypeUpdate raw with
    | none => none
    | some type =>
      if type = "" || type = s.cfg.sessionType.text then none
      else
        some (s.errorParam "invalid_value"
          ("cannot change session type from " ++ env.quote s.cfg.sessionType.text ++ " to " ++
            env.quote type ++ " after creation") "session.type")

def validateUpdate (env : Env F) (s : Session F) (raw : Raw) : Option ErrorBody :=
  s.validateStrictUpdate env raw <|> s.validateTurnDetection env raw <|>
    s.validateVoiceChange env raw <|> s.validateSessionMaxOutputTokens env raw <|>
    s.validateSessionType env raw

/-! ## `conversation.item.create` -/

def allowedParts (role : String) : Option (List String) :=
  if role = "user" then some ["input_text", "input_audio", "input_image", "text"]
  else if role = "assistant" then some ["output_text", "output_audio", "text", "audio"]
  else if role = "system" then some ["input_text", "text"]
  else none

def validateMessageItem (env : Env F) (s : Session F) (it : ParsedItem) : Option ErrorBody :=
  if it.type ≠ "message" then none
  else
    match allowedParts it.role with
    | none =>
      some (s.errorParam "invalid_value"
        ("invalid role " ++ env.quote it.role ++ " for a message item") "item.role")
    | some allowed =>
      match env.decode.partTypes it.content with
      | none => none
      | some parts =>
        (parts.zipIdx.find? fun p => p.1 ≠ "" && !allowed.contains p.1).map fun (part, i) =>
          s.errorParam "invalid_value"
            ("invalid content part type " ++ env.quote part ++ " for role " ++ env.quote it.role)
            ("item.content[" ++ toString i ++ "].type")

end Session

end MockAgents.Realtime
