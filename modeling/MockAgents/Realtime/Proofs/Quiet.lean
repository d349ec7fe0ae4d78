import MockAgents.Realtime.Proofs.Responses
/-!
# What the audio side does not see

Requests, responses and their paced emission leave the detector, the configuration
and the fired flag of the idle timeout alone and emit no event of the audio side;
they arm the idle deadline only while the flag is down.
-/

namespace MockAgents.Realtime

open List Event

variable {F ι κ : Type}
variable (env : Env F)

/-- No event of the audio buffer. -/
def Event.isPlain : Event F ι → Bool
  | .bufferCleared | .bufferCommitted .. | .speechStarted .. | .speechStopped ..
  | .timeoutTriggered .. => false
  | _ => true

theorem Event.isPlain_of_isReply {ev : Event F ι} (h : ev.isReply = true) : ev.isPlain = true := by
  cases ev <;> first
    | rfl
    | exact absurd h (by simp [isReply])

theorem Event.Sent.isPlain {ev e : Event F ItemRef} (h : ev.Sent e) : e.isPlain = ev.isPlain := by
  cases h <;> rfl

theorem plain_of_sent {queue out : Events F} (hq : ∀ e ∈ queue, e.isPlain = true)
    (h : ∀ e ∈ out, ∃ ev ∈ queue, ev.Sent e) : ∀ e ∈ out, e.isPlain = true := by
  intro e he
  obtain ⟨ev, hev, hsent⟩ := h e he
  exact hsent.isPlain.trans (hq ev hev)

namespace Session

def PlainQueue (s : Session F) : Prop := ∀ e ∈ s.queue, e.isPlain = true

/-- The idle timeout can be armed: server VAD with a timeout, in a realtime session. -/
def idleAvailable (s : Session F) : Bool := idleConfigured s.vad && !s.isTranscription

variable (s : Session F) {s' s₁ s₂ s₃ : Session F} {out : Events F}
variable {ev : Event F ItemRef} {inf : Inflight F}

/-- Identity, configuration, turn detection and pacing are untouched. -/
structure Settled (s s' : Session F) : Prop where
  id : s'.id = s.id
  cfg : s'.cfg = s.cfg
  vad : s'.vad = s.vad
  pace : s'.paceInterval = s.paceInterval

theorem Settled.refl : s.Settled s := ⟨rfl, rfl, rfl, rfl⟩

theorem Settled.trans (h₁ : s₁.Settled s₂) (h₂ : s₂.Settled s₃) : s₁.Settled s₃ :=
  ⟨h₂.id.trans h₁.id, h₂.cfg.trans h₁.cfg, h₂.vad.trans h₁.vad, h₂.pace.trans h₁.pace⟩

theorem Settled.idleAvailable {s : Session F} (h : s.Settled s') :
    s'.idleAvailable = s.idleAvailable := by
  rw [Session.idleAvailable, Session.idleAvailable, isTranscription, isTranscription, h.vad, h.cfg]

/-- The step is none of the audio side's. -/
structure Quiet (s : Session F) (out : List (Event F ItemRef)) (s' : Session F) : Prop where
  settled : s.Settled s'
  counter : s.counter ≤ s'.counter
  fired : s'.idleFired = s.idleFired
  idle : s'.idleAt = s.idleAt ∨ s'.idleAt = 0 ∨ (s.idleFired = false ∧ s.idleAvailable = true)
  plain : s.PlainQueue → s'.PlainQueue ∧ ∀ e ∈ out, e.isPlain = true

theorem Quiet.trans {o₁ o₂ : Events F} (h₁ : Quiet s₁ o₁ s₂) (h₂ : Quiet s₂ o₂ s₃) :
    Quiet s₁ (o₁ ++ o₂) s₃ := by
  refine ⟨h₁.settled.trans h₂.settled, h₁.counter.trans h₂.counter, h₂.fired.trans h₁.fired, ?_, ?_⟩
  · rcases h₂.idle with h | h | h
    · rw [h]
      exact h₁.idle
    · exact .inr (.inl h)
    · exact .inr (.inr ⟨h₁.fired ▸ h.1, h₁.settled.idleAvailable ▸ h.2⟩)
  · intro hq
    obtain ⟨hq₂, ho₁⟩ := h₁.plain hq
    obtain ⟨hq₃, ho₂⟩ := h₂.plain hq₂
    refine ⟨hq₃, fun e he => ?_⟩
    rcases mem_append.mp he with he | he
    · exact ho₁ e he
    · exact ho₂ e he

theorem Quiet.before (h₁ : Quiet s₁ [] s₂) (h₂ : Quiet s₂ out s₃) : Quiet s₁ out s₃ := h₁.trans h₂

theorem Quiet.after (h₁ : Quiet s₁ out s₂) (h₂ : Quiet s₂ [] s₃) : Quiet s₁ out s₃ := by
  have := h₁.trans h₂
  rwa [append_nil] at this

theorem Quiet.ofPlain (h : ∀ e ∈ out, e.isPlain = true) : Quiet s out s :=
  ⟨.refl s, le_rfl, rfl, .inl rfl, fun hq => ⟨hq, h⟩⟩

theorem Quiet.refl : Quiet s [] s := Quiet.ofPlain s (by simp)

theorem Quiet.error (e : ErrorBody) : Quiet s [.error e] s :=
  Quiet.ofPlain s (by simp [isPlain])

theorem Quiet.of_eq {s : Session F} (hs : s.Settled s') (hc : s.counter ≤ s'.counter)
    (hf : s'.idleFired = s.idleFired) (hi : s'.idleAt = s.idleAt) (hq : s'.inflight = s.inflight) :
    Quiet s [] s' := by
  refine ⟨hs, hc, hf, .inl hi, fun h => ⟨?_, by simp⟩⟩
  rwa [PlainQueue, queue, hq]

theorem Extends.quiet {s : Session F} (h : s.Extends s') : Quiet s [] s' := by
  obtain ⟨n, heap, hn, rfl⟩ := h
  exact .of_eq ⟨rfl, rfl, rfl, rfl⟩ hn rfl rfl rfl

theorem Extends.settled {s : Session F} (h : s.Extends s') : s.Settled s' := h.quiet.settled

theorem Shelved.quiet {s : Session F} (h : s.Shelved s') : Quiet s [] s' := by
  obtain ⟨i, o, l, hs, heap, rfl⟩ := h
  exact .of_eq ⟨rfl, rfl, rfl, rfl⟩ le_rfl rfl rfl rfl

theorem Reindexed.quiet {s : Session F} (h : s.Reindexed s') : Quiet s [] s' := h.shelved.quiet

theorem armIdleTimer_quiet : Quiet s [] (s.armIdleTimer env) := by
  unfold armIdleTimer
  split
  · exact .refl s
  next v hv =>
    split
    · exact .refl s
    next h =>
      simp only [Bool.or_eq_true, not_or, Bool.not_eq_true, decide_eq_false_iff_not, not_le,
        not_not] at h
      refine ⟨⟨rfl, rfl, rfl, rfl⟩, le_rfl, rfl, .inr (.inr ⟨h.2, ?_⟩), fun hq => ⟨hq, by simp⟩⟩
      simp [idleAvailable, idleConfigured, hv, h.1.1.1, h.1.1.2, h.1.2]

/-! ## Responses -/

theorem finishBurst_quiet (plan : Plan) (items : List ItemRef) :
    Quiet s [] (s.finishBurst env plan items) := by
  unfold finishBurst
  split
  · exact .of_eq ⟨rfl, rfl, rfl, rfl⟩ le_rfl rfl rfl rfl
  · refine Quiet.before ?_ (armIdleTimer_quiet env _)
    refine Quiet.before ?_ (reindexed_joinItems _ items).quiet
    split <;> exact .of_eq ⟨rfl, rfl, rfl, rfl⟩ le_rfl rfl rfl rfl

theorem emitResponse_quiet (respID : String) (plan : Plan) :
    Gives (Quiet s) (s.emitResponse env respID plan) := by
  have hgrow := (extends_buildLadder env s respID plan).quiet
  have hladder : ∀ e ∈ (s.buildLadder env respID plan).2.1, e.isPlain = true := fun e he => by
    cases onLadder_build env s plan he <;> rfl
  have hopen : ∀ e ∈ s.openingEvents respID plan, e.isPlain = true := by
    simp [openingEvents, isPlain]
  have hout : ∀ r, ∀ e ∈ s.openingEvents respID plan ++ (s.buildLadder env respID plan).2.1 ++
      [.responseDone r], e.isPlain = true := by
    intro r e he
    simp only [mem_append, mem_singleton] at he
    rcases he with (he | he) | rfl
    · exact hopen e he
    · exact hladder e he
    · rfl
  unfold emitResponse
  dsimp only
  split
  · refine hgrow.before ⟨⟨rfl, rfl, rfl, rfl⟩, le_rfl, rfl, .inl rfl, fun _ => ⟨?_, hopen⟩⟩
    intro e he
    exact hout _ e (mem_of_mem_drop he)
  · exact hgrow.before ((finishBurst_quiet ..).before (.ofPlain _ (hout _)))

theorem failedResponse_quiet (respID : String) (msg : Lib.Bytes) (rc : ResponseCtx) :
    Gives (Quiet s) (s.failedResponse env respID msg rc) := by
  unfold failedResponse
  split
  · exact .ofPlain s (by simp [isPlain])
  · exact (armIdleTimer_quiet env s).before (.ofPlain _ (by simp [isPlain]))

theorem Prepared.quiet {s : Session F} {rc : ResponseCtx} {respID : String} (h : s.Prepared rc respID s') :
    Quiet s [] s' := by
  obtain ⟨n, calls, gens, hn, rfl⟩ := h.eq
  refine ⟨⟨rfl, rfl, rfl, rfl⟩, hn, rfl, ?_, fun hq => ⟨hq, by simp⟩⟩
  split
  · exact .inl rfl
  · exact .inr (.inl rfl)

theorem createResponse_quiet (ce : ClientEvent) : Gives (Quiet s) (s.createResponse env ce) := by
  rcases s.createResponse_cases env ce with ⟨e, h⟩ | ⟨-, h⟩
  · rw [h]
    exact .error s e
  · generalize s.createResponse env ce = r at h
    cases h with
    | failed hp => exact hp.quiet.before (failedResponse_quiet ..)
    | emitted hp => exact hp.quiet.before (emitResponse_quiet ..)

/-! ## Paced emission -/

/-- A step beside the queue, with what is emitted from it. -/
theorem Quiet.emits {s : Session F} (h : Quiet s [] s') {i j : Option (Inflight F)}
    (hplain : (∀ inf, i = some inf → ∀ e ∈ inf.queue, e.isPlain = true) →
      (∀ e ∈ out, e.isPlain = true) ∧ ∀ inf, j = some inf → ∀ e ∈ inf.queue, e.isPlain = true) :
    Quiet { s with inflight := i } out { s' with inflight := j } := by
  refine ⟨⟨h.settled.id, h.settled.cfg, h.settled.vad, h.settled.pace⟩, h.counter, h.fired, h.idle, ?_⟩
  intro hq
  obtain ⟨hout, hj⟩ := hplain (by rintro inf rfl; exact hq)
  refine ⟨?_, hout⟩
  cases j with
  | none => simp [PlainQueue, queue]
  | some inf => exact hj inf rfl

theorem emitQueued_quiet (inf : Inflight F) (ev : Event F ItemRef) :
    Quiet s [] (s.emitQueued inf ev).1 := by
  obtain ⟨b, h⟩ := emitQueued_shelved s inf ev
  refine Quiet.before ?_ h.quiet
  exact .of_eq ⟨rfl, rfl, rfl, rfl⟩ le_rfl rfl rfl rfl

theorem completeResponse_quiet (inf : Inflight F) :
    Gives (Quiet s) (s.completeResponse env inf) := by
  have hfree : ∀ b, Quiet s [] { s with
      history := s.history ++ inf.onDone, inflight := none, pendingResponse := b } := by
    intro b
    exact ⟨⟨rfl, rfl, rfl, rfl⟩, le_rfl, rfl, .inl rfl, fun _ => ⟨by simp [PlainQueue, queue], by simp⟩⟩
  unfold completeResponse
  dsimp only
  split
  · exact (hfree _).before (createResponse_quiet env _ {})
  · exact (hfree s.pendingResponse).before (armIdleTimer_quiet env _)

theorem drainQueue_quiet (now : Int) : Gives (Quiet s) (s.drainQueue env now) := by
  have hstep : ∀ (s : Session F) inf ev rest, inf.queue = ev :: rest → ∀ j : Option (Inflight F),
      (∀ inf', j = some inf' → inf'.queue = rest) →
      Quiet { s with inflight := some inf } (s.emitQueued { inf with queue := rest } ev).2.2
        { (s.emitQueued { inf with queue := rest } ev).1 with inflight := j } := by
    intro s inf ev rest hqueue j hj
    refine (emitQueued_quiet s { inf with queue := rest } ev).emits fun hq => ?_
    have hall := hq inf rfl
    rw [hqueue] at hall
    refine ⟨plain_of_sent hall fun e he => ?_, fun inf' h e he => ?_⟩
    · exact ⟨ev, mem_cons_self, (emitQueued_cases s _ ev).sent e he⟩
    · exact hall e (mem_cons_of_mem _ (hj inf' h ▸ he))
  refine drainQueue_induction .refl Quiet.trans ?_ ?_ s now
  · intro s inf ev rest t hqueue _
    refine hstep s inf ev rest hqueue _ ?_
    rintro _ ⟨⟩
    exact (emitQueued_cases s { inf with queue := rest } ev).tracks.queue
  · rintro s inf ev hqueue t rfl
    -- the completion does not look at what was in flight
    exact (hstep s inf ev [] hqueue none (by simp)).trans
      (completeResponse_quiet env { (s.emitQueued { inf with queue := [] } ev).1 with inflight := none } _)

/-! ## Cancellation and truncation -/

theorem cancelInflight_quiet {s : Session F} (hinf : s.inflight = some inf) (reason : CancelReason) :
    Gives (Quiet s) (s.cancelInflight inf reason) := by
  obtain ⟨out, r, hout, -, hclosing, hs⟩ := s.cancelInflight_cases inf reason
  rw [Gives, hout]
  have hstop : Quiet s (out ++ [.responseDone r]) { s with
      inflight := none
      pendingResponse := if reason = .turnDetected then false else s.pendingResponse
      idleAt := 0 } := by
    refine ⟨⟨rfl, rfl, rfl, rfl⟩, le_rfl, rfl, .inr (.inl rfl), fun hq => ?_⟩
    rw [PlainQueue, queue, hinf] at hq
    refine ⟨by simp [PlainQueue, queue], forall_mem_append.mpr ⟨?_, by simp [isPlain]⟩⟩
    exact plain_of_sent hq fun e he => (hclosing e he).2
  exact hstop.after hs.quiet

theorem truncateInflightItem_quiet (id : String) : Quiet s [] (s.truncateInflightItem id) := by
  rcases s.truncateInflightItem_cases id with h | ⟨inf, heap, queue, onDone, hinf, hthin, h⟩
  · rw [h]
    exact .refl s
  · rw [h]
    refine ⟨⟨rfl, rfl, rfl, rfl⟩, le_rfl, rfl, .inl rfl, fun hq => ⟨?_, by simp⟩⟩
    rw [PlainQueue, Session.queue, hinf] at hq
    exact plain_of_sent hq hthin.mem

/-! ## Requests -/

theorem retrieveItem_quiet (id : String) : Gives (Quiet s) (s.retrieveItem env id) := by
  unfold retrieveItem
  split <;> exact .ofPlain s (by simp [itemNotFound, isPlain])

theorem deleteItem_quiet (id : String) : Gives (Quiet s) (s.deleteItem env id) := by
  unfold deleteItem
  split
  · exact .ofPlain s (by simp [itemNotFound, isPlain])
  · refine ⟨⟨rfl, rfl, rfl, rfl⟩, le_rfl, rfl, .inl rfl, fun hq => ⟨?_, by simp [isPlain]⟩⟩
    intro e he
    refine hq e ?_
    cases hinf : s.inflight with
    | none => simp [queue, removeItem, hinf] at he
    | some inf => simpa [queue, removeItem, hinf] using he

theorem truncateItem_quiet (ce : ClientEvent) : Gives (Quiet s) (s.truncateItem env ce) := by
  unfold truncateItem
  split
  · exact .ofPlain s (by simp [itemNotFound, isPlain])
  · dsimp only
    split
    · exact (truncateInflightItem_quiet s _).before (.ofPlain _ (by simp [isPlain]))
    · split
      · refine Quiet.before ?_ (.ofPlain _ (by simp [isPlain]))
        exact .of_eq ⟨rfl, rfl, rfl, rfl⟩ le_rfl rfl rfl rfl
      · exact .error s _

theorem cancelResponse_quiet (ce : ClientEvent) : Gives (Quiet s) (s.cancelResponse env ce) := by
  unfold cancelResponse
  dsimp only
  split
  · exact .error s _
  next inf hinf =>
    have hc := cancelInflight_quiet hinf .clientCancelled
    split
    · split
      · refine Quiet.trans (hc.after ?_) (createResponse_quiet env _ {})
        exact .of_eq ⟨rfl, rfl, rfl, rfl⟩ le_rfl rfl rfl rfl
      · exact hc
    · exact .error s _

theorem addItem_quiet (it : ParsedItem) (id after : String) :
    Gives (Quiet s) (s.addItem env it id after) := by
  unfold addItem
  split
  · exact .error s _
  · refine Quiet.before (Quiet.before ?_ (reindexed_rememberItem ..).quiet)
      (.ofPlain _ (by simp [conversationItemEvents, isPlain]))
    exact .of_eq ⟨rfl, rfl, rfl, rfl⟩ le_rfl rfl rfl rfl

theorem createItem_settled (ce : ClientEvent) : s.Settled (s.createItem env ce).1 := by
  unfold createItem
  dsimp only
  set s₁ : Session F := { s with idleAt := 0, idleFired := false } with hs₁
  have h₁ : s.Settled s₁ := ⟨rfl, rfl, rfl, rfl⟩
  split
  · exact h₁
  · split
    · exact (h₁.trans (extends_nextID s₁ .item).settled).trans (addItem_quiet ..).settled
    · split
      · exact h₁
      · exact h₁.trans (addItem_quiet ..).settled

variable [GoFloat F]

theorem requestResponse_settled (ce : ClientEvent) : s.Settled (s.requestResponse env ce).1 := by
  unfold requestResponse
  split
  · exact .refl s
  · split
    · exact .refl s
    · refine Settled.trans ?_ (createResponse_quiet env _ ce).settled
      exact ⟨rfl, rfl, rfl, rfl⟩

end Session

end MockAgents.Realtime
