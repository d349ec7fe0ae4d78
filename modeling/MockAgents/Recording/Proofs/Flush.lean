import MockAgents.Recording.Cassette
/-!
# The flush protocol

However the calls interleave and whichever file operations fail, the file starts
with the lines of the first `flushed` interactions, and holds nothing else unless
a rebuild is pending.
-/

namespace MockAgents.Recording.Proofs

open Lib List

variable {hashRequest : Bytes → Bytes → Bytes → Bytes} {encode : Interaction → Option Bytes}
variable {r : Recorder} {caller : Nat} {io : FlushIO} {snapshot : List Interaction}

theorem encodeLines_append (xs ys : List Interaction) :
    encodeLines encode (xs ++ ys) = encodeLines encode xs ++ encodeLines encode ys := by
  induction xs with
  | nil => rfl
  | cons x xs ih =>
    rw [cons_append, encodeLines, encodeLines, ih]
    cases encode x with
    | none => rfl
    | some line => exact (append_assoc _ _ _).symm

/-- The encodable interactions, line by line and in order. -/
theorem encodeLines_eq (encode : Interaction → Option Bytes) (xs : List Interaction) :
    encodeLines encode xs = (xs.filterMap encode).flatten := by
  induction xs with
  | nil => rfl
  | cons x xs ih =>
    rw [encodeLines, ih]
    cases hx : encode x with
    | none => simp [hx]
    | some line => simp [hx]

def written (c : Cassette) : List Interaction := c.interactions.take c.flushed

structure Consistent (encode : Interaction → Option Bytes) (r : Recorder) : Prop where
  cursor : r.cassette.flushed ≤ r.cassette.interactions.length
  snapshots : ∀ s ∈ r.waiting, s <+: r.cassette.interactions
  starts : encodeLines encode (written r.cassette) <+: r.contents
  exact : r.cassette.rewrite = false → r.contents = encodeLines encode (written r.cassette)

theorem Consistent.enqueue (h : Consistent encode r) (new : List Interaction) :
    Consistent encode
      (r.enqueue { r.cassette with interactions := r.cassette.interactions ++ new }) := by
  have hwritten : written { r.cassette with interactions := r.cassette.interactions ++ new } =
      written r.cassette := take_append_of_le_length h.cursor
  refine ⟨?_, ?_, ?_, ?_⟩
  · show r.cassette.flushed ≤ (r.cassette.interactions ++ new).length
    rw [length_append]
    exact Nat.le_trans h.cursor (Nat.le_add_right _ _)
  · intro s hs
    have hgrow : r.cassette.interactions <+: r.cassette.interactions ++ new :=
      prefix_append _ _
    unfold Recorder.enqueue at hs
    split at hs
    · exact (h.snapshots s hs).trans hgrow
    · rcases mem_append.mp hs with hs | hs
      · exact (h.snapshots s hs).trans hgrow
      · rw [mem_singleton.mp hs]
        exact prefix_refl _
  · show encodeLines encode (written { r.cassette with interactions := _ }) <+: r.contents
    rw [hwritten]
    exact h.starts
  · intro hrewrite
    show r.contents = encodeLines encode (written { r.cassette with interactions := _ })
    rw [hwritten]
    exact h.exact hrewrite

section Flush

variable {c : Cassette} {file : Option Bytes} {snapshot : List Interaction}

/-- What one flush can do: nothing, fail without advancing, or write the whole
snapshot. -/
theorem flush_cases (io : FlushIO) (hsnap : snapshot <+: c.interactions)
    (hstarts : encodeLines encode (written c) <+: file.getD [])
    (hexact : c.rewrite = false → file.getD [] = encodeLines encode (written c)) :
    (snapshot.length ≤ c.flushed ∧ c.flush encode file snapshot io = (c, file, none)) ∨
    (c.flushed < snapshot.length ∧ ∃ file' err,
      c.flush encode file snapshot io = ({ c with rewrite := true }, file', some err) ∧
      encodeLines encode (written c) <+: file'.getD []) ∨
    (c.flushed < snapshot.length ∧ ∃ file', c.flush encode file snapshot io =
        ({ c with rewrite := false, flushed := snapshot.length }, file', none) ∧
      file'.getD [] = encodeLines encode snapshot) := by
  unfold Cassette.flush
  by_cases hlen : c.flushed ≥ snapshot.length
  · rw [if_pos hlen]
    exact .inl ⟨hlen, rfl⟩
  have hlt : c.flushed < snapshot.length := Nat.lt_of_not_le hlen
  rw [if_neg hlen]
  cases hrewrite : c.rewrite with
  | true =>
    have hself : { c with rewrite := true } = c := by
      rw [← hrewrite]
    rw [hself]
    cases io.rewrite with
    | succeeds => exact .inr (.inr ⟨hlt, _, rfl, rfl⟩)
    | createTempFails => exact .inr (.inl ⟨hlt, _, _, rfl, hstarts⟩)
    | writeFails => exact .inr (.inl ⟨hlt, _, _, rfl, hstarts⟩)
    | closeFails => exact .inr (.inl ⟨hlt, _, _, rfl, hstarts⟩)
    | renameFails => exact .inr (.inl ⟨hlt, _, _, rfl, hstarts⟩)
  | false =>
    -- the snapshot is the written part followed by the pending one
    have hsplit : encodeLines encode snapshot =
        file.getD [] ++ encodeLines encode (snapshot.drop c.flushed) := by
      obtain ⟨rest, hrest⟩ := hsnap
      have htake : written c = snapshot.take c.flushed := by
        rw [written, ← hrest]
        exact take_append_of_le_length (Nat.le_of_lt hlt)
      rw [hexact hrewrite, htake, ← encodeLines_append, take_append_drop]
    have hkeep : ∀ tail, encodeLines encode (written c) <+: file.getD [] ++ tail :=
      fun tail => hstarts.trans (prefix_append _ _)
    have hself : { c with rewrite := false, flushed := snapshot.length } =
        { c with flushed := snapshot.length } := by
      rw [← hrewrite]
    rw [hself]
    simp only [Bool.false_eq_true, if_false]
    by_cases hbuf : (encodeLines encode (snapshot.drop c.flushed)).length = 0
    · rw [if_pos hbuf]
      rw [length_eq_zero_iff.mp hbuf, append_nil] at hsplit
      exact .inr (.inr ⟨hlt, file, rfl, hsplit.symm⟩)
    · rw [if_neg hbuf]
      cases io.append with
      | openFails => exact .inr (.inl ⟨hlt, _, _, rfl, hstarts⟩)
      | writeFails n => exact .inr (.inl ⟨hlt, _, _, rfl, hkeep _⟩)
      | closeFails => exact .inr (.inl ⟨hlt, _, _, rfl, hkeep _⟩)
      | succeeds => exact .inr (.inr ⟨hlt, _, rfl, hsplit.symm⟩)

end Flush

theorem step_flush (h : r.waiting[caller]? = some snapshot) :
    r.step hashRequest encode (.flush caller io) =
      ({ cassette := (r.cassette.flush encode r.file snapshot io).1
         file := (r.cassette.flush encode r.file snapshot io).2.1
         waiting := r.waiting.eraseIdx caller },
        (r.cassette.flush encode r.file snapshot io).2.2) := by
  unfold Recorder.step
  simp only [h]

/-- One step keeps the recorder consistent and never moves the cursor back. -/
theorem Consistent.step (h : Consistent encode r)
    (hashRequest : Bytes → Bytes → Bytes → Bytes) (a : Action) :
    Consistent encode (r.step hashRequest encode a).1 ∧
      r.cassette.flushed ≤ (r.step hashRequest encode a).1.cassette.flushed := by
  cases a with
  | append now it => exact ⟨h.enqueue _, le_rfl⟩
  | appendAll now its => exact ⟨h.enqueue _, le_rfl⟩
  | flush caller io =>
    cases hcaller : r.waiting[caller]? with
    | none =>
      simp only [Recorder.step, hcaller]
      exact ⟨h, le_rfl⟩
    | some snapshot =>
      rw [step_flush hcaller]
      have hsnap := h.snapshots snapshot (mem_of_getElem? hcaller)
      have hrest : ∀ s ∈ r.waiting.eraseIdx caller, s <+: r.cassette.interactions :=
        fun s hs => h.snapshots s (mem_of_mem_eraseIdx hs)
      rcases flush_cases io hsnap h.starts h.exact with
        ⟨_, heq⟩ | ⟨_, file', err, heq, hstarts⟩ | ⟨hlt, file', heq, hfile⟩
      · rw [heq]
        exact ⟨⟨h.cursor, hrest, h.starts, h.exact⟩, le_rfl⟩
      · rw [heq]
        exact ⟨⟨h.cursor, hrest, hstarts, fun hfalse => by simp at hfalse⟩, le_rfl⟩
      · rw [heq]
        have hwritten : written { r.cassette with
            rewrite := false, flushed := snapshot.length } = snapshot :=
          (prefix_iff_eq_take.mp hsnap).symm
        have hcontents : file'.getD [] = encodeLines encode (written { r.cassette with
            rewrite := false, flushed := snapshot.length }) := by
          rw [hwritten, hfile]
        refine ⟨⟨hsnap.length_le, hrest, ?_, fun _ => hcontents⟩, Nat.le_of_lt hlt⟩
        show encodeLines encode (written _) <+: file'.getD []
        rw [hcontents]

theorem Consistent.run (h : Consistent encode r)
    (hashRequest : Bytes → Bytes → Bytes → Bytes) (acts : List Action) :
    Consistent encode (r.run hashRequest encode acts) ∧
      r.cassette.flushed ≤ (r.run hashRequest encode acts).cassette.flushed := by
  induction acts generalizing r with
  | nil => exact ⟨h, le_rfl⟩
  | cons a acts ih =>
    obtain ⟨hstep, hle⟩ := h.step hashRequest a
    obtain ⟨hrun, hle'⟩ := ih hstep
    exact ⟨hrun, Nat.le_trans hle hle'⟩

/-- A flush that had something to write and returned no error leaves exactly its
snapshot on disk. -/
theorem Consistent.flushed_snapshot (h : Consistent encode r)
    (hcaller : r.waiting[caller]? = some snapshot) (hlt : r.cassette.flushed < snapshot.length)
    (hnil : (r.step hashRequest encode (.flush caller io)).2 = none) :
    (r.step hashRequest encode (.flush caller io)).1.contents = encodeLines encode snapshot := by
  have hsnap := h.snapshots snapshot (mem_of_getElem? hcaller)
  rw [step_flush hcaller] at hnil ⊢
  rcases flush_cases io hsnap h.starts h.exact with
    ⟨hle, _⟩ | ⟨_, file', err, heq, _⟩ | ⟨_, file', heq, hfile⟩
  · omega
  · rw [heq] at hnil
    simp at hnil
  · rw [heq]
    exact hfile

/-- **The flush protocol.**  From an empty cassette and an absent file, after any
steps in any order with any failing operations: no later step moves the cursor
back, the file starts with the lines of the encodable interactions the cursor
covers and is exactly those unless a rebuild is pending, and the next flush that
has something to write and returns no error leaves exactly its snapshot. -/
theorem flush_protocol (hashRequest : Bytes → Bytes → Bytes → Bytes)
    (encode : Interaction → Option Bytes) (path : String) (acts : List Action) (r : Recorder)
    (hrun : r = (Recorder.start path).run hashRequest encode acts) :
    (∀ more, r.cassette.flushed ≤ (r.run hashRequest encode more).cassette.flushed) ∧
    r.cassette.flushed ≤ r.cassette.interactions.length ∧
    ((r.cassette.interactions.take r.cassette.flushed).filterMap encode).flatten <+: r.contents ∧
    (r.cassette.rewrite = false → r.contents =
      ((r.cassette.interactions.take r.cassette.flushed).filterMap encode).flatten) ∧
    ∀ caller io snapshot, r.waiting[caller]? = some snapshot →
      r.cassette.flushed < snapshot.length →
      (r.step hashRequest encode (.flush caller io)).2 = none →
      (r.step hashRequest encode (.flush caller io)).1.contents =
        (snapshot.filterMap encode).flatten := by
  have hstart : Consistent encode (Recorder.start path) :=
    ⟨Nat.le_refl 0, by simp [Recorder.start], nil_prefix, fun _ => rfl⟩
  have h : Consistent encode r := hrun ▸ (hstart.run hashRequest acts).1
  have hlines := encodeLines_eq encode (written r.cassette)
  refine ⟨fun more => (h.run hashRequest more).2, h.cursor, hlines ▸ h.starts,
    fun hrewrite => hlines ▸ h.exact hrewrite, ?_⟩
  intro caller io snapshot hcaller hlt hnil
  rw [h.flushed_snapshot hcaller hlt hnil, encodeLines_eq]

/-- An append that tears after one byte, and the rebuild that repairs it: the
second call's flush rewrites both lines. -/
theorem flush_protocol_torn :
    let line : Interaction → Option Bytes := fun it => some (it.path ++ [10])
    let it : Interaction := { method := [], path := [65] }
    let acts := [.append 0 it, .append 0 it, .flush 0 ⟨.writeFails 1, .succeeds⟩]
    let r := (Recorder.start "c").run (fun _ _ _ => [1]) line acts
    r.contents = [65] ∧ r.cassette.rewrite = true ∧
      (r.step (fun _ _ _ => [1]) line (.flush 0 ⟨.succeeds, .succeeds⟩)).1.contents =
        [65, 10, 65, 10] := by
  intro line it acts r
  obtain ⟨_, _, _, _, hflush⟩ := flush_protocol (fun _ _ _ => [1]) line "c" acts r rfl
  refine ⟨by decide, by decide, ?_⟩
  exact hflush 0 ⟨.succeeds, .succeeds⟩ r.cassette.interactions (by decide) (by decide)
    (by decide)

end MockAgents.Recording.Proofs
