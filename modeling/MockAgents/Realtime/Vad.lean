import MockAgents.Realtime.Pace
/-!
# Audio input and turn detection

`vad.go` and the `input_audio_buffer` handlers: measuring appended audio, the
commit of the buffer, and the turn-detection state machine.
-/

namespace MockAgents.Realtime

open Lib

variable {F : Type} [GoFloat F]

/-! ## Codecs -/

structure AudioCodec (F : Type) where
  bytesPerMs : F
  sampleBytes : Nat
  amplitude : Bytes → F

/-- `|sample| / 32768`. -/
def sampleAmplitude (sample : Int) : F :=
  GoFloat.div (GoFloat.ofInt sample.natAbs) (GoFloat.ofInt 32768)

/-- A little-endian two's complement sample. -/
def pcm16Decode (b : Bytes) : Int :=
  let n : Int := (b.getD 0 0).toNat + 256 * (b.getD 1 0).toNat
  if n < 32768 then n else n - 65536

def ulawDecode (u : UInt8) : Int :=
  let u := ~~~u
  let exponent := ((u >>> 4) &&& 0x07).toNat
  let mantissa : Int := (u &&& 0x0F).toNat
  let sample := (mantissa * 8 + 0x84) * 2 ^ exponent - 0x84
  if u &&& 0x80 ≠ 0 then -sample else sample

def alawDecode (a : UInt8) : Int :=
  let a := a ^^^ 0x55
  let exponent := ((a >>> 4) &&& 0x07).toNat
  let mantissa : Int := (a &&& 0x0F).toNat
  let sample :=
    if exponent = 0 then mantissa * 16 + 8 else (mantissa * 16 + 0x108) * 2 ^ (exponent - 1)
  if a &&& 0x80 = 0 then -sample else sample

def codecPCM16 : AudioCodec F := ⟨GoFloat.ofInt 48, 2, fun b => sampleAmplitude (pcm16Decode b)⟩

def codecPCMU : AudioCodec F := ⟨GoFloat.ofInt 8, 1, fun b => sampleAmplitude (ulawDecode (b.getD 0 0))⟩

def codecPCMA : AudioCodec F := ⟨GoFloat.ofInt 8, 1, fun b => sampleAmplitude (alawDecode (b.getD 0 0))⟩

def codecFor (env : Env F) (format : Raw) : AudioCodec F :=
  if format = [] then codecPCM16
  else
    match env.decode.formatType format with
    | none => codecPCM16
    | some type =>
      if type = "audio/pcmu" then codecPCMU
      else if type = "audio/pcma" then codecPCMA
      else codecPCM16

def sumAmplitude (codec : AudioCodec F) (raw : Bytes) : Nat → F
  | 0 => GoFloat.ofInt 0
  | n + 1 =>
    GoFloat.add (sumAmplitude codec raw n) (codec.amplitude (raw.drop (n * codec.sampleBytes)))

/-- Duration and energy of a payload; text that is not base64 counts as speech. -/
def audioEnergy (raw : Option Bytes) (b64Len : Nat) (codec : AudioCodec F) : F × F :=
  match raw with
  | none =>
    (GoFloat.div (GoFloat.mul (GoFloat.ofInt b64Len) (GoFloat.lit 75 2)) codec.bytesPerMs,
      GoFloat.ofInt 1)
  | some raw =>
    let ms := GoFloat.div (GoFloat.ofInt raw.length) codec.bytesPerMs
    let n := raw.length / codec.sampleBytes
    if n = 0 then (ms, GoFloat.ofInt 0)
    else (ms, GoFloat.div (sumAmplitude codec raw n) (GoFloat.ofInt n))

def maxBufferedAudioBytes : Nat := 2 * 2 ^ 20

def audioInputPlaceholder : Bytes := Utf8.bytes "[audio input]"

namespace Session

def markAudioWindow (s : Session F) (keepMs : F) : Session F :=
  let start := GoFloat.sub s.bufferedMs keepMs
  if GoFloat.lt (GoFloat.ofInt 0) start then { s with audioWindowStartMs := start } else s

/-- `vadReset`: abandons a speech cycle. -/
def vadReset (s : Session F) : Session F :=
  { s with
    vad := s.vad.map fun v =>
      { v with speechActive := false, silenceMs := GoFloat.ofInt 0, pendingItemID := "" } }

/-- `vadCommitItemID`: the id a speech start announced, if there is one. -/
def pendingItem (s : Session F) : Option String :=
  match s.vad with
  | none => none
  | some v => if v.pendingItemID = "" then none else some v.pendingItemID

/-! ## Committing the buffer -/

/-- The committed duration and audio: the detected window for a server commit, the
whole buffer for a client's. -/
def committedWindow (env : Env F) (s : Session F) : F × Bytes :=
  if s.vadCommitting && GoFloat.lt (GoFloat.ofInt 0) s.audioWindowStartMs &&
      GoFloat.lt s.audioWindowStartMs s.bufferedMs then
    let codec := codecFor env s.cfg.inputFormat
    let off := GoFloat.round (GoFloat.mul s.audioWindowStartMs codec.bytesPerMs)
    let off := off - off.tmod codec.sampleBytes
    (GoFloat.sub s.bufferedMs s.audioWindowStartMs, s.audioBuf.drop off.toNat)
  else (s.bufferedMs, s.audioBuf)

def transcriptionEvents (env : Env F) (s : Session F) (itemID : String) (seconds : F) :
    List (Event F ItemRef) :=
  if !s.transcriptionEnabled then []
  else
    let model := s.transcriptionModel env
    let chunks :=
      if model = "whisper-1" then [audioInputPlaceholder] else chunkText audioInputPlaceholder
    let logprobs := s.includesTranscriptionLogprobs env
    let usage : TranscriptionUsage F :=
      if model = "" || model = "whisper-1" then .duration seconds
      else
        .tokens (GoFloat.toInt (GoFloat.mul seconds (GoFloat.ofInt 10)))
          (wordCount audioInputPlaceholder)
    (chunks.map fun chunk => .transcriptionDelta itemID chunk logprobs) ++
      [.transcriptionCompleted itemID audioInputPlaceholder usage (if logprobs then chunks else [])]

/-- The id and predecessor of a committed item: the announced id of a detected
turn, whose cycle ends, or a new one. -/
def adoptItem (s : Session F) : Session F × Option String × String :=
  match s.pendingItem with
  | some id => (s.vadReset.joinTail id, s.previousItemID, id)
  | none => s.newConversationItem

def commitItem (env : Env F) (s : Session F) : Session F × List (Event F ItemRef) :=
  let s := { s with audioBuffer := false, idleAt := 0, idleFired := false }
  let (committedMs, committedAudio) := s.committedWindow env
  let s := { s with bufferedMs := GoFloat.ofInt 0, audioWindowStartMs := GoFloat.ofInt 0 }
  let (s, prev, id) := s.adoptItem
  let turn : Message := ⟨"user", audioInputPlaceholder⟩
  let transcript := if s.transcriptionEnabled then .text audioInputPlaceholder else .nonString
  let (s, emitted) := storeTurn { s with history := s.history ++ [turn] } id transcript committedAudio
  let s := { s with audioBuf := [] }
  (s, [.bufferCommitted prev id] ++ conversationItemEvents prev emitted ++
    s.transcriptionEvents env id (GoFloat.div committedMs (GoFloat.ofInt 1000)))

def commitBuffer (env : Env F) (s : Session F) : Session F × List (Event F ItemRef) :=
  let code := "input_audio_buffer_commit_empty"
  if !s.audioBuffer then
    (s, [.error (s.errorOf code "Error committing input audio buffer: the buffer is empty.")])
  else if GoFloat.lt s.bufferedMs (GoFloat.ofInt 100) && !s.vadCommitting then
    (s, [.error (s.errorOf code
      ("Error committing input audio buffer: buffer too small. Expected at least 100ms of audio, but buffer only has " ++
        env.formatMs s.bufferedMs ++ "ms of audio."))])
  else s.commitItem env

/-! ## Turn detection -/

/-- The automatic response of a finished turn, queued behind one in flight. -/
def autoRespond (env : Env F) (s : Session F) (cfg : VadConfig F) :
    Session F × List (Event F ItemRef) :=
  if s.isTranscription || !cfg.createResponse.getD true then (s, [])
  else if s.inflight.isNone then s.createResponse env {}
  else ({ s with pendingResponse := true }, [])

def vadEndOfTurn (env : Env F) (s : Session F) (v : VadState F) :
    Session F × List (Event F ItemRef) :=
  let (s, committed) := commitBuffer env { s with vadCommitting := true }
  let s := { s with vadCommitting := false }
  let stopped := Event.speechStopped (GoFloat.toInt v.totalMs) v.pendingItemID
  if (s.vad.map (·.speechActive)).getD false then (s.vadReset, stopped :: committed)
  else
    let (s, more) := s.autoRespond env v.cfg
    (s, stopped :: committed ++ more)

/-- The start of a detected turn, which interrupts a response in flight. -/
def vadStart (s : Session F) (v : VadState F) (startMs ms : F) :
    Session F × List (Event F ItemRef) :=
  let (s, id) := s.nextID .item
  let v :=
    { v with
      speechActive := true, silenceMs := GoFloat.ofInt 0, speechStartMs := startMs
      pendingItemID := id }
  let padding := GoFloat.ofInt v.cfg.prefixPaddingMs
  let s := markAudioWindow { s with vad := some v } (GoFloat.add ms padding)
  let audioStart := GoFloat.sub startMs padding
  let audioStart := if GoFloat.lt audioStart (GoFloat.ofInt 0) then GoFloat.ofInt 0 else audioStart
  let started := Event.speechStarted (GoFloat.toInt audioStart) id
  match s.inflight with
  | none => (s, [started])
  | some inf =>
    if v.cfg.interrupts then
      let (s, more) := s.cancelInflight inf .turnDetected
      (s, started :: more)
    else (s, [started])

def vadAppend (env : Env F) (s : Session F) (v : VadState F) (ms energy : F) :
    Session F × List (Event F ItemRef) :=
  let startMs := v.totalMs
  let v := { v with totalMs := GoFloat.add v.totalMs ms }
  let speech := GoFloat.lt (GoFloat.ofInt 0) energy &&
    GoFloat.le (GoFloat.mul v.cfg.threshold (GoFloat.lit 1 1)) energy
  let s := if speech then { s with idleAt := 0, idleFired := false } else s
  if !v.speechActive then
    if speech then s.vadStart v startMs ms else ({ s with vad := some v }, [])
  else if speech then ({ s with vad := some { v with silenceMs := GoFloat.ofInt 0 } }, [])
  else
    let v := { v with silenceMs := GoFloat.add v.silenceMs ms }
    let s := { s with vad := some v }
    if GoFloat.lt v.silenceMs (GoFloat.ofInt v.cfg.silenceDurationMs) then (s, [])
    else s.vadEndOfTurn env v

def appendAudio (env : Env F) (s : Session F) (audio : Bytes) :
    Session F × List (Event F ItemRef) :=
  let raw := Base64.decodeString audio
  let (ms, energy) := audioEnergy raw audio.length (codecFor env s.cfg.inputFormat)
  let s :=
    { s with
      audioBuffer := true
      bufferedMs := GoFloat.add s.bufferedMs ms
      audioBuf := s.audioBuf ++ (raw.getD []).take (maxBufferedAudioBytes - s.audioBuf.length) }
  match s.vad with
  | none => (s, [])
  | some v => s.vadAppend env v ms energy

def clearBuffer (s : Session F) : Session F × List (Event F ItemRef) :=
  (vadReset
    { s with
      audioBuffer := false, bufferedMs := GoFloat.ofInt 0, audioBuf := []
      audioWindowStartMs := GoFloat.ofInt 0 }, [.bufferCleared])

end Session

end MockAgents.Realtime
