import MockAgents.Recording.Redact
/-!
# Frames of a recorded stream

`assembleSSEFrames` cuts the stream after every blank line, wherever the chunks end: it gives
some frames exactly when the whole stream is cut into them and none exceeds the limit.
-/

namespace MockAgents.Recording

open Lib Lib.Utf8 List Option Strings

def EndsBlank (s : Bytes) : Prop := ∃ a, s = a ++ bytes "\n\n" ∨ s = a ++ bytes "\r\n\r\n"

/-- A complete frame: the first blank line is its end. -/
def IsFrame (s : Bytes) : Prop := EndsBlank s ∧ ∀ p, p <+: s → EndsBlank p → p = s

def Framing (maxBytes : Nat) (s : Bytes) (frames : List Bytes) : Prop :=
  s = frames.flatten ∧ ∀ f ∈ frames, IsFrame f ∧ f.length ≤ maxBytes

def streamOf (chunks : List StreamEvent) : Bytes := (chunks.map (·.data)).flatten

variable {s t f p pending rest : Bytes} {frames more : List Bytes} {maxBytes fuel n : Nat} {delayMs : Int}

/-! ## The first blank line -/

theorem bytes_lf : bytes "\n\n" = [10, 10] := rfl

theorem bytes_crlf : bytes "\r\n\r\n" = [13, 10, 13, 10] := rfl

theorem IsFrame.length_pos (h : IsFrame f) : 0 < f.length := by
  obtain ⟨a, rfl | rfl⟩ := h.1 <;> rw [length_append] <;> exact Nat.add_pos_right _ (by decide)

theorem EndsBlank.split (h : EndsBlank p) (hp : p <+: s) :
    ∃ a b, (s = a ++ (bytes "\n\n" ++ b) ∧ p.length = a.length + 2) ∨
      (s = a ++ (bytes "\r\n\r\n" ++ b) ∧ p.length = a.length + 4) := by
  obtain ⟨b, rfl⟩ := hp
  obtain ⟨a, rfl | rfl⟩ := h
  · exact ⟨a, b, .inl ⟨append_assoc .., length_append⟩⟩
  · exact ⟨a, b, .inr ⟨append_assoc .., length_append⟩⟩

/-- Two line feeds inside a CRLF blank line are its end. -/
theorem crlf_overlap {a b c d : Bytes} (h : a ++ (bytes "\r\n\r\n" ++ b) = c ++ (bytes "\n\n" ++ d))
    (hac : a.length < c.length) : a.length + 4 ≤ c.length + 2 := by
  obtain ⟨e, rfl, he⟩ | ⟨e, rfl, he⟩ := append_eq_append_iff.mp h
  · rcases e with _ | ⟨x, _ | ⟨y, e⟩⟩
    · simp at hac
    · exact absurd (congrArg (·[2]?) he) (by simp [bytes_lf, bytes_crlf])
    · simp only [length_append, length_cons]
      omega
  · simp only [length_append] at hac
    omega

theorem frameLen_none (h : frameLen pending = none) (hp : p <+: pending) : ¬ EndsBlank p := by
  unfold frameLen at h
  split at h
  next hlf hcrlf =>
    rintro hblank
    obtain ⟨a, b, ⟨heq, -⟩ | ⟨heq, -⟩⟩ := hblank.split hp
    · exact index_eq_none hlf a b heq
    · exact index_eq_none hcrlf a b heq
  · cases h
  · cases h
  · split at h <;> cases h

theorem isFrame_take {d : Bytes} (hd : EndsBlank d) {i : Nat}
    (hat : (∃ b, pending = pending.take i ++ (d ++ b)) ∧ i ≤ pending.length)
    (hfirst : ∀ p, p <+: pending → EndsBlank p → i + d.length ≤ p.length) :
    i + d.length ≤ pending.length ∧ IsFrame (pending.take (i + d.length)) := by
  obtain ⟨⟨b, heq⟩, hi⟩ := hat
  have hi' : (pending.take i).length = i := length_take_of_le hi
  have htake : pending.take (i + d.length) = pending.take i ++ d := by
    conv_lhs => rw [heq, ← append_assoc]
    exact take_left' (by rw [length_append, hi'])
  have hlen : (pending.take i ++ d).length = i + d.length := by rw [length_append, hi']
  refine ⟨?_, ?_, fun p hp hblank => ?_⟩
  · rw [heq, ← append_assoc, length_append, hlen]
    exact Nat.le_add_right ..
  · rw [htake]
    obtain ⟨a, rfl | rfl⟩ := hd
    · exact ⟨pending.take i ++ a, .inl (append_assoc ..).symm⟩
    · exact ⟨pending.take i ++ a, .inr (append_assoc ..).symm⟩
  · refine hp.eq_of_length_le ?_
    rw [htake, hlen]
    exact hfirst p (hp.trans ( take_prefix ..)) hblank

/-- The frame taken ends at the first blank line. -/
theorem frameLen_some (h : frameLen pending = some n) : n ≤ pending.length ∧ IsFrame (pending.take n) := by
  have hlfBlank : EndsBlank (bytes "\n\n") := ⟨[], .inl rfl⟩
  have hcrlfBlank : EndsBlank (bytes "\r\n\r\n") := ⟨[], .inr rfl⟩
  unfold frameLen at h
  split at h
  · cases h
  next lf hlf hcrlf =>
    obtain ⟨heq, hle, hmin⟩ := index_eq_some hlf
    obtain rfl := some.inj h
    refine isFrame_take hlfBlank ⟨heq, hle⟩ fun p hp hblank => ?_
    obtain ⟨a, b, ⟨hs, hlen⟩ | ⟨hs, -⟩⟩ := hblank.split hp
    · have := hmin a b hs
      show lf + 2 ≤ p.length
      omega
    · exact absurd hs (index_eq_none hcrlf a b)
  next crlf hlf hcrlf =>
    obtain ⟨heq, hle, hmin⟩ := index_eq_some hcrlf
    obtain rfl := some.inj h
    refine isFrame_take hcrlfBlank ⟨heq, hle⟩ fun p hp hblank => ?_
    obtain ⟨a, b, ⟨hs, -⟩ | ⟨hs, hlen⟩⟩ := hblank.split hp
    · exact absurd hs (index_eq_none hlf a b)
    · have := hmin a b hs
      show crlf + 4 ≤ p.length
      omega
  next lf crlf hlf hcrlf =>
    obtain ⟨heq, hle, hmin⟩ := index_eq_some hlf
    obtain ⟨⟨c, heq'⟩, hle', hmin'⟩ := index_eq_some hcrlf
    split at h
    next hlt =>
      obtain rfl := some.inj h
      refine isFrame_take hcrlfBlank ⟨⟨c, heq'⟩, hle'⟩ fun p hp hblank => ?_
      show crlf + 4 ≤ p.length
      obtain ⟨a, b, ⟨hs, hlen⟩ | ⟨hs, hlen⟩⟩ := hblank.split hp
      · have hcut : (pending.take crlf).length = crlf := length_take_of_le hle'
        have := hmin a b hs
        have := crlf_overlap (heq'.symm.trans hs) (by omega)
        omega
      · have := hmin' a b hs
        omega
    next hge =>
      obtain rfl := some.inj h
      refine isFrame_take hlfBlank ⟨heq, hle⟩ fun p hp hblank => ?_
      show lf + 2 ≤ p.length
      obtain ⟨a, b, ⟨hs, hlen⟩ | ⟨hs, hlen⟩⟩ := hblank.split hp
      · have := hmin a b hs
        omega
      · have := hmin' a b hs
        omega

theorem IsFrame.frameLen_append (hf : IsFrame f) (t : Bytes) : frameLen (f ++ t) = some f.length := by
  cases h : frameLen (f ++ t) with
  | none => exact absurd hf.1 (frameLen_none h (prefix_append f t))
  | some n =>
    obtain ⟨hn, hblank, hfirst⟩ := frameLen_some h
    have hprefix : (f ++ t).take n <+: f ++ t := take_prefix ..
    have heq : (f ++ t).take n = f := by
      rcases prefix_or_prefix_of_prefix hprefix (prefix_append f t) with hle | hle
      · exact hf.2 _ hle hblank
      · exact (hfirst f hle hf.1).symm
    rw [← heq, length_take_of_le hn]

/-! ## Cutting a stream -/

theorem framing_nil : Framing maxBytes [] frames ↔ frames = [] := by
  constructor
  · rintro ⟨heq, hframes⟩
    refine eq_nil_iff_forall_not_mem.mpr fun f hf => ?_
    have hpos := (hframes f hf).1.length_pos
    rw [flatten_eq_nil_iff.mp heq.symm f hf] at hpos
    cases hpos
  · rintro rfl
    exact ⟨rfl, by simp⟩

/-- A stream that begins with a frame has it as its first. -/
theorem IsFrame.framing_iff (hf : IsFrame f) :
    Framing maxBytes (f ++ t) more ↔
      f.length ≤ maxBytes ∧ ∃ tail, more = f :: tail ∧ Framing maxBytes t tail := by
  constructor
  · rintro ⟨heq, hmore⟩
    cases more with
    | nil =>
      have hpos := hf.length_pos
      simp only [flatten_nil, append_eq_nil_iff] at heq
      simp [heq.1] at hpos
    | cons g more =>
      obtain ⟨hg, htails⟩ := forall_mem_cons.mp hmore
      have hlen : f.length = g.length := by
        have h := hf.frameLen_append t
        rw [heq, flatten_cons, hg.1.frameLen_append] at h
        exact (some.inj h).symm
      obtain ⟨rfl, htail⟩ := append_inj heq hlen
      exact ⟨hg.2, more, rfl, htail, htails⟩
  · rintro ⟨hlen, tail, rfl, rfl, htail⟩
    exact ⟨rfl, forall_mem_cons.mpr ⟨⟨hf, hlen⟩, htail⟩⟩

theorem framing_append (hframes : ∀ f ∈ frames, IsFrame f ∧ f.length ≤ maxBytes) :
    Framing maxBytes (frames.flatten ++ t) more ↔
      ∃ tail, more = frames ++ tail ∧ Framing maxBytes t tail := by
  induction frames generalizing more with
  | nil => simp
  | cons f frames ih =>
    obtain ⟨hf, hrest⟩ := forall_mem_cons.mp hframes
    rw [flatten_cons, append_assoc, hf.1.framing_iff]
    constructor
    · rintro ⟨-, tail, rfl, h⟩
      obtain ⟨tail, rfl, htail⟩ := (ih hrest).mp h
      exact ⟨tail, rfl, htail⟩
    · rintro ⟨tail, rfl, htail⟩
      exact ⟨hf.2, frames ++ tail, rfl, (ih hrest).mpr ⟨tail, rfl, htail⟩⟩

/-- A text without a blank line is the beginning of a frame. -/
theorem Framing.first (h : Framing maxBytes (s ++ t) frames) (hs : ∀ p, p <+: s → ¬ EndsBlank p)
    (hne : s ≠ []) : s.length < maxBytes ∧ t ≠ [] := by
  obtain ⟨heq, hframes⟩ := h
  cases frames with
  | nil => exact absurd (append_eq_nil_iff.mp heq).1 hne
  | cons f frames =>
    obtain ⟨⟨hf, hlen⟩, -⟩ := forall_mem_cons.mp hframes
    rw [flatten_cons] at heq
    have hlong : s.length < f.length := by
      by_contra hle
      refine hs f ?_ hf.1
      exact prefix_of_prefix_length_le ⟨frames.flatten, heq.symm⟩ (prefix_append s t) (by omega)
    refine ⟨by omega, ?_⟩
    rintro rfl
    have := congrArg List.length heq
    simp only [length_append, length_nil] at this
    omega

/-! ## The loops -/

theorem takeFrames_ok {r : List StreamEvent × Bytes} (hfuel : pending.length ≤ fuel)
    (h : takeFrames maxBytes delayMs fuel pending = .ok r) :
    pending = streamOf r.1 ++ r.2 ∧ (∀ f ∈ r.1.map (·.data), IsFrame f ∧ f.length ≤ maxBytes) ∧
      ∀ p, p <+: r.2 → ¬ EndsBlank p := by
  induction fuel generalizing pending r with
  | zero =>
    obtain rfl := Except.ok.inj h
    obtain rfl : pending = [] := length_eq_zero_iff.mp (Nat.le_zero.mp hfuel)
    refine ⟨rfl, by simp, fun p hp => ?_⟩
    exact frameLen_none (rfl : frameLen [] = none) hp
  | succ fuel ih =>
    rw [takeFrames] at h
    split at h
    next hnone =>
      obtain rfl := Except.ok.inj h
      exact ⟨rfl, by simp, fun p hp => frameLen_none hnone hp⟩
    next n hn =>
      obtain ⟨hle, hframe⟩ := frameLen_some hn
      have hlen := length_take_of_le hle
      split at h
      · cases h
      next hmax =>
        cases hrec : takeFrames maxBytes delayMs fuel (pending.drop n) with
        | error e => simp [hrec, Except.map] at h
        | ok q =>
          simp only [hrec, Except.map, Except.ok.injEq] at h
          subst h
          have hpos := hframe.length_pos
          obtain ⟨heq, hframes, hrest⟩ := ih (by rw [length_drop]; omega) hrec
          refine ⟨?_, ?_, hrest⟩
          · rw [streamOf, map_cons, flatten_cons, append_assoc]
            conv_lhs => rw [← take_append_drop n pending, heq]
            rfl
          · rw [map_cons, forall_mem_cons]
            exact ⟨⟨hframe, by rw [hlen]; omega⟩, hframes⟩

theorem takeFrames_error {e : Bytes} (h : takeFrames maxBytes delayMs fuel pending = .error e) :
    ¬ Framing maxBytes (pending ++ t) frames := by
  induction fuel generalizing pending frames e with
  | zero => exact absurd h (by simp [takeFrames])
  | succ fuel ih =>
    rw [takeFrames] at h
    split at h
    · cases h
    next n hn =>
      obtain ⟨hle, hframe⟩ := frameLen_some hn
      have hlen := length_take_of_le hle
      rw [← take_append_drop n pending, append_assoc, hframe.framing_iff]
      rintro ⟨hfits, tail, -, htail⟩
      rw [if_neg (by omega)] at h
      cases hrec : takeFrames maxBytes delayMs fuel (pending.drop n) with
      | ok q => simp [hrec, Except.map] at h
      | error e => exact ih hrec htail

/-- The frames given are the frames of the whole stream. -/
theorem assembleFrom_ok_iff {chunks : List StreamEvent} (hpending : ∀ p, p <+: pending → ¬ EndsBlank p) :
    (∃ out, assembleFrom maxBytes pending chunks = .ok out ∧ out.map (·.data) = frames) ↔
      Framing maxBytes (pending ++ streamOf chunks) frames := by
  induction chunks generalizing pending frames with
  | nil =>
    rw [assembleFrom]
    by_cases hempty : pending = []
    · subst hempty
      rw [streamOf, map_nil, flatten_nil, append_nil, framing_nil]
      constructor
      · rintro ⟨out, ⟨⟩, rfl⟩
        rfl
      · rintro rfl
        exact ⟨[], rfl, rfl⟩
    · rw [if_neg hempty]
      refine ⟨by simp, fun h => ?_⟩
      exact absurd rfl (h.first hpending hempty).2
  | cons chunk chunks ih =>
    have hstream : pending ++ streamOf (chunk :: chunks) = pending ++ chunk.data ++ streamOf chunks := by
      simp [streamOf]
    rw [assembleFrom, hstream]
    cases htake : takeFrames maxBytes chunk.delayMs (pending ++ chunk.data).length (pending ++ chunk.data) with
    | error e =>
      refine ⟨by simp [Except.bind], fun h => ?_⟩
      exact absurd h (takeFrames_error htake)
    | ok r =>
      obtain ⟨heq, hframes, hrest⟩ := takeFrames_ok le_rfl htake
      rw [heq, append_assoc, streamOf, framing_append hframes]
      simp only [Except.bind]
      split
      next hlong =>
        refine ⟨by simp, ?_⟩
        rintro ⟨tail, rfl, htail⟩
        have hne : r.2 ≠ [] := ne_nil_of_length_pos (by omega)
        have := (htail.first hrest hne).1
        omega
      · constructor
        · rintro ⟨out, hout, rfl⟩
          cases hrec : assembleFrom maxBytes r.2 chunks with
          | error e => simp [hrec, Except.map] at hout
          | ok out' =>
            simp only [hrec, Except.map, Except.ok.injEq] at hout
            subst hout
            exact ⟨out'.map (·.data), by simp, (ih hrest).mp ⟨out', hrec, rfl⟩⟩
        · rintro ⟨tail, rfl, htail⟩
          obtain ⟨out, hout, rfl⟩ := (ih hrest).mpr htail
          exact ⟨r.1 ++ out, by simp [hout, Except.map], by simp⟩

theorem assembleSSEFrames_ok_iff {chunks : List StreamEvent} :
    (∃ out, assembleSSEFrames chunks maxBytes = .ok out ∧ out.map (·.data) = frames) ↔
      maxBytes ≠ 0 ∧ Framing maxBytes (streamOf chunks) frames := by
  unfold assembleSSEFrames
  split
  next h =>
    simp [h]
  next h =>
    rw [assembleFrom_ok_iff fun p hp => frameLen_none (rfl : frameLen [] = none) hp]
    simp [h]

def frameData (r : Except Bytes (List StreamEvent)) : Option (List Bytes) :=
  r.toOption.map fun frames => frames.map (·.data)

theorem frameData_eq_some {r : Except Bytes (List StreamEvent)} :
    frameData r = some frames ↔ ∃ out, r = .ok out ∧ out.map (·.data) = frames := by
  cases r <;> simp [frameData, Except.toOption]

/-- Wherever a stream is cut into chunks, assembling it fails or gives the same frames; they
make up the stream, and each ends at its first blank line. -/
theorem assembleSSEFrames_chunking (maxBytes : Nat) {chunks chunks' : List StreamEvent}
    (hsame : streamOf chunks = streamOf chunks') :
    frameData (assembleSSEFrames chunks maxBytes) = frameData (assembleSSEFrames chunks' maxBytes) ∧
      ∀ frames, frameData (assembleSSEFrames chunks maxBytes) = some frames →
        frames.flatten = streamOf chunks ∧ ∀ f ∈ frames, IsFrame f := by
  constructor
  · refine Option.ext fun frames => ?_
    rw [frameData_eq_some, frameData_eq_some, assembleSSEFrames_ok_iff, assembleSSEFrames_ok_iff, hsame]
  · intro frames h
    obtain ⟨-, heq, hframes⟩ := assembleSSEFrames_ok_iff.mp (frameData_eq_some.mp h)
    exact ⟨heq.symm, fun f hf => (hframes f hf).1⟩

/-- The CRLF blank line of the first frame straddles the chunks. -/
theorem assembleSSEFrames_chunking_straddled :
    frameData (assembleSSEFrames [⟨0, bytes "data: a\r\n\r"⟩, ⟨5, bytes "\ndata: b\n\n"⟩] 64) =
      some [bytes "data: a\r\n\r\n", bytes "data: b\n\n"] ∧
    frameData (assembleSSEFrames [⟨0, bytes "data: a\r\n\r\ndata: b\n\n"⟩] 64) =
      some [bytes "data: a\r\n\r\n", bytes "data: b\n\n"] := by
  have hwhole : frameData (assembleSSEFrames [⟨0, bytes "data: a\r\n\r\ndata: b\n\n"⟩] 64) =
      some [bytes "data: a\r\n\r\n", bytes "data: b\n\n"] := by decide +kernel
  refine ⟨?_, hwhole⟩
  rw [← hwhole]
  exact (assembleSSEFrames_chunking 64 (by decide)).1

end MockAgents.Recording
