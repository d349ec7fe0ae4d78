import MockAgents.Lib.Utf8
/-!
# Frames on stdio

`readStdioFrame` of `stdio.go` and the loop of `ServeStdio` that calls it.  What the reader
gives depends on the bytes still to come, on the size of its buffer, and on whether its source
reports the end of input together with the last bytes.
-/

namespace MockAgents.Mcp

open Lib

inductive ReadErr where
  | bufferFull
  | eof
deriving DecidableEq, Repr

/-- A `bufio.Reader`: the size it was asked for, and the habit of its source. -/
structure Reader where
  size : Nat
  eofWithData : Bool

namespace Reader

variable (br : Reader)

/-- `NewReaderSize` makes no buffer of less than 16 bytes. -/
def bufSize : Nat := max br.size 16

/-- `ReadSlice` up to a newline: a line, a full buffer, or what is left at the end.  The bytes
still to come are the last component. -/
def readSlice (stream : Bytes) : Bytes × Option ReadErr × Bytes :=
  let line := stream.takeWhile (· ≠ 10)
  if line.length < stream.length ∧ line.length < br.bufSize then
    (line ++ [10], none, stream.drop (line.length + 1))
  else if br.bufSize < stream.length ∨ (br.bufSize = stream.length ∧ !br.eofWithData) then
    (stream.take br.bufSize, some .bufferFull, stream.drop br.bufSize)
  else (stream, some .eof, [])

theorem readSlice_bufferFull {stream chunk rest : Bytes}
    (h : br.readSlice stream = (chunk, some .bufferFull, rest)) : rest.length < stream.length := by
  have hsize : 16 ≤ br.bufSize := le_max_right _ _
  unfold readSlice at h
  dsimp only at h
  split at h
  · simp at h
  · split at h
    · obtain ⟨-, rfl⟩ : _ ∧ stream.drop br.bufSize = rest := by simpa using h
      rw [List.length_drop]
      omega
    · simp at h

/-- The rest of an over-long line is read and dropped. -/
def swallow (stream : Bytes) : Option ReadErr × Bytes :=
  match _h : br.readSlice stream with
  | (_, some .bufferFull, rest) => swallow rest
  | (_, err, rest) => (err, rest)
termination_by stream.length
decreasing_by exact br.readSlice_bufferFull ‹_›

inductive Frame where
  | line (b : Bytes)
  | tooLong
deriving DecidableEq, Repr

/-- `readStdioFrame`, with what it has collected so far. -/
def readStdioFrame (max : Int) (buf stream : Bytes) : Frame × Option ReadErr × Bytes :=
  match _h : br.readSlice stream with
  | (chunk, some .bufferFull, rest) =>
    if max < buf.length + chunk.length then (.tooLong, br.swallow rest)
    else readStdioFrame max (buf ++ chunk) rest
  | (chunk, err, rest) =>
    if max < buf.length + chunk.length then (.tooLong, err, rest) else (.line (buf ++ chunk), err, rest)
termination_by stream.length
decreasing_by exact br.readSlice_bufferFull ‹_›

/-- The calls of the loop of `ServeStdio`, up to the first with an error. -/
def readFrames (max : Int) : Nat → Bytes → List (Frame × Option ReadErr)
  | 0, _ => []
  | calls + 1, stream =>
    match br.readStdioFrame max [] stream with
    | (frame, none, rest) => (frame, none) :: readFrames max calls rest
    | (frame, err, _) => [(frame, err)]

end Reader

end MockAgents.Mcp
