import MockAgents.Mcp.Stdio
/-!
# Framing by lines

A frame is put together from slices of the buffer, and an over-long line is recognised in the
middle.  The frames of a stream are its lines nevertheless, whatever the size of the buffer.
-/

namespace MockAgents.Mcp

open Lib List

/-- The stream cut after each newline, and what follows the last one. -/
def cutLines : Bytes → List Bytes × Bytes
  | [] => ([], [])
  | b :: rest =>
    if b = 10 then ([10] :: (cutLines rest).1, (cutLines rest).2)
    else match cutLines rest with
      | ([], last) => ([], b :: last)
      | (line :: lines, last) => ((b :: line) :: lines, last)

/-- A line is its own frame within the maximum, its newline counted. -/
def frameOf (max : Int) (line : Bytes) : Reader.Frame :=
  if max < line.length then .tooLong else .line line

theorem cutLines_last {last : Bytes} (h : 10 ∉ last) : cutLines last = ([], last) := by
  induction last with
  | nil => rfl
  | cons b last ih =>
    simp only [mem_cons, not_or] at h
    rw [cutLines, if_neg (Ne.symm h.1), ih h.2]

theorem cutLines_line {line : Bytes} (h : 10 ∉ line) (rest : Bytes) :
    cutLines (line ++ 10 :: rest) = ((line ++ [10]) :: (cutLines rest).1, (cutLines rest).2) := by
  induction line with
  | nil => simp [cutLines]
  | cons b line ih =>
    simp only [mem_cons, not_or] at h
    rw [cons_append, cutLines, if_neg (Ne.symm h.1), ih h.2]
    rfl

namespace Reader

/-- What ends a line: its newline, or the end of input. -/
inductive Ends : Bytes → Bytes → Option ReadErr → Bytes → Prop
  | newline (rest : Bytes) : Ends (10 :: rest) [10] none rest
  | eof : Ends [] [] (some .eof) []

variable {line tail term rest : Bytes} {err : Option ReadErr}

/-- A slice ends its line, or is a part of it. -/
theorem readSlice_cases (br : Reader) (hline : 10 ∉ line) (h : Ends tail term err rest) :
    br.readSlice (line ++ tail) = (line ++ term, err, rest) ∨
      ∃ chunk more, chunk ≠ [] ∧ line = chunk ++ more ∧
        br.readSlice (line ++ tail) = (chunk, some .bufferFull, more ++ tail) := by
  have hsize : 16 ≤ br.bufSize := le_max_right _ _
  have hcut : (line ++ tail).takeWhile (· ≠ 10) = line := by
    have hall : ∀ b ∈ line, decide (b ≠ 10) = true := fun b hb =>
      decide_eq_true fun heq => hline (heq ▸ hb)
    rw [takeWhile_append_of_pos hall]
    cases h <;> simp
  -- a full buffer cuts the line where its newline does not fit
  have hfull : br.bufSize ≤ line.length → ∃ chunk more, chunk ≠ [] ∧ line = chunk ++ more ∧
      ((line ++ tail).take br.bufSize, some ReadErr.bufferFull, (line ++ tail).drop br.bufSize) =
        (chunk, some .bufferFull, more ++ tail) := by
    intro hle
    refine ⟨line.take br.bufSize, line.drop br.bufSize, ?_, (take_append_drop ..).symm, ?_⟩
    · exact ne_nil_of_length_pos (by rw [length_take]; omega)
    · rw [take_append_of_le_length hle, drop_append_of_le_length hle]
  unfold readSlice
  rw [hcut]
  cases h with
  | newline rest =>
    by_cases hfits : line.length < br.bufSize
    · rw [if_pos ⟨by simp, hfits⟩]
      exact .inl (by simp)
    · rw [if_neg fun h => hfits h.2, if_pos (.inl (by simp; omega))]
      exact .inr (hfull (not_lt.mp hfits))
  | eof =>
    rw [if_neg (by simp)]
    split
    next hlong => exact .inr (hfull (by simpa using hlong.elim le_of_lt fun h => h.1.le))
    · exact .inl rfl

theorem swallow_eq (br : Reader) (hline : 10 ∉ line) (h : Ends tail term err rest) :
    br.swallow (line ++ tail) = (err, rest) := by
  induction hn : line.length using Nat.strong_induction_on generalizing line with
  | _ n ih =>
    rw [swallow]
    rcases readSlice_cases br hline h with hslice | ⟨chunk, more, hchunk, rfl, hslice⟩
    · rw [hslice]
      cases h <;> rfl
    · rw [hslice]
      have hpos := length_pos_of_ne_nil hchunk
      rw [length_append] at hn
      exact ih more.length (by omega) (fun hm => hline (mem_append_right _ hm)) rfl

/-- The frame of a line does not depend on where the buffer cuts it. -/
theorem readStdioFrame_eq (br : Reader) (max : Int) (buf : Bytes) (hline : 10 ∉ line)
    (h : Ends tail term err rest) :
    br.readStdioFrame max buf (line ++ tail) = (frameOf max (buf ++ (line ++ term)), err, rest) := by
  induction hn : line.length using Nat.strong_induction_on generalizing line buf with
  | _ n ih =>
    rw [readStdioFrame]
    rcases readSlice_cases br hline h with hslice | ⟨chunk, more, hchunk, rfl, hslice⟩
    · rw [hslice]
      have hframe : frameOf max (buf ++ (line ++ term)) =
          if max < buf.length + (line ++ term).length then .tooLong else .line (buf ++ (line ++ term)) := by
        simp [frameOf]
      rw [hframe]
      cases h <;> dsimp only <;> split <;> rfl
    · rw [hslice]
      dsimp only
      have hmore : 10 ∉ more := fun hm => hline (mem_append_right _ hm)
      split
      next hover =>
        -- the line is over the maximum already
        have hlong : max < (buf ++ (chunk ++ more ++ term)).length := by
          simp only [length_append]
          omega
        rw [swallow_eq br hmore h, frameOf, if_pos hlong]
      next hfits =>
        have hpos := length_pos_of_ne_nil hchunk
        rw [length_append] at hn
        rw [ih more.length (by omega) (buf ++ chunk) hmore rfl]
        simp

theorem readFrames_eq (br : Reader) (max : Int) {stream : Bytes} {calls : Nat}
    (hcalls : stream.length < calls) :
    br.readFrames max calls stream = (cutLines stream).1.map (fun line => (frameOf max line, none)) ++
      [(frameOf max (cutLines stream).2, some .eof)] := by
  induction calls generalizing stream with
  | zero => exact absurd hcalls (Nat.not_lt_zero _)
  | succ calls ih =>
    rw [readFrames]
    by_cases hnewline : 10 ∈ stream
    · obtain ⟨line, rest, rfl, hline⟩ := eq_append_cons_of_mem hnewline
      rw [readStdioFrame_eq br max [] hline (.newline rest), cutLines_line hline]
      rw [length_append, length_cons] at hcalls
      exact congrArg _ (ih (by omega))
    · have hlast := readStdioFrame_eq br max [] hnewline .eof
      rw [append_nil] at hlast
      rw [hlast, cutLines_last hnewline]
      rfl

/-- The frames of a stream are its lines in order, each one over the maximum replaced by one
marker, and the last call, on what follows the last newline, reports the end of input. -/
theorem stdio_framed (br : Reader) (max : Int) (stream : Bytes) (more : Nat) :
    br.readFrames max (stream.length + 1 + more) stream =
      (cutLines stream).1.map (fun line => (frameOf max line, none)) ++
        [(frameOf max (cutLines stream).2, some .eof)] :=
  readFrames_eq br max (by omega)

end Reader

end MockAgents.Mcp
