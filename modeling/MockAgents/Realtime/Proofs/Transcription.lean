import MockAgents.Realtime.Proofs.Quiet
import MockAgents.Realtime.Exact
/-!
# Transcription sessions

A transcription session that has neither a queued response nor an armed idle
deadline stays so, and opens no response.
-/

namespace MockAgents.Realtime

open Lib.Lifecycle List Event

variable {F ι κ : Type}
variable (env : Env F)

def Event.isCreated : Event F ι → Bool
  | .responseCreated _ => true
  | _ => false

@[simp] theorem Event.isCreated_map (f : ι → κ) (ev : Event F ι) :
    (ev.map f).isCreated = ev.isCreated := by
  cases ev <;> rfl

theorem Event.Inside.isCreated {respID : String} {ev : Event F ι} (h : ev.Inside respID) :
    ev.isCreated = false := by
  cases ev <;> first
    | rfl
    | (rcases h with h | h <;> simp [mark] at h)

theorem Event.isCreated_of_isReply {ev : Event F ι} (h : ev.isReply = true) : ev.isCreated = false := by
  cases ev <;> first
    | rfl
    | exact absurd h (by simp [isReply])

theorem Event.Sent.isCreated {ev e : Event F ItemRef} (h : ev.Sent e) : e.isCreated = ev.isCreated := by
  cases h <;> rfl

theorem ClosingQueue.isCreated {respID : String} {queue : Events F}
    (h : ClosingQueue respID queue) : ∀ e ∈ queue, e.isCreated = false := by
  obtain ⟨init, r, rfl, _, hin⟩ := h
  intro e he
  rcases mem_append.mp he with h | h
  · exact (hin e h).isCreated
  · obtain rfl : e = .responseDone r := by simpa using h
    rfl

namespace Session

/-- A transcription session with no response pending and no deadline armed. -/
structure Muted (s : Session F) : Prop where
  transcription : s.cfg.sessionType = .transcription
  pending : s.pendingResponse = false
  idle : s.idleAt = 0

def Hushed (s : Session F) (out : List (Event F ItemRef)) (s' : Session F) : Prop :=
  s.Muted → s'.Muted ∧ ∀ e ∈ out, e.isCreated = false

variable {s₁ s₂ s₃ s s' : Session F} {out : Events F}

theorem Hushed.trans {o₁ o₂ : Events F} (h₁ : Hushed s₁ o₁ s₂) (h₂ : Hushed s₂ o₂ s₃)
    : Hushed s₁ (o₁ ++ o₂) s₃ := by
  intro hs
  obtain ⟨hs₂, ho₁⟩ := h₁ hs
  obtain ⟨hs₃, ho₂⟩ := h₂ hs₂
  refine ⟨hs₃, fun e he => ?_⟩
  rcases mem_append.mp he with h | h
  · exact ho₁ e h
  · exact ho₂ e h

/-- The step changed neither the type, nor the pending response, and armed no deadline. -/
structure Calm (s s' : Session F) : Prop where
  type : s'.cfg.sessionType = s.cfg.sessionType
  pending : s'.pendingResponse = true → s.pendingResponse = true
  idle : s'.idleAt = s.idleAt ∨ s'.idleAt = 0

theorem Calm.same (ht : s'.cfg.sessionType = s.cfg.sessionType)
    (hp : s'.pendingResponse = s.pendingResponse) (hi : s'.idleAt = s.idleAt) : s.Calm s' :=
  ⟨ht, fun h => hp ▸ h, .inl hi⟩

theorem Calm.refl (s : Session F) : s.Calm s := .same rfl rfl rfl

theorem Calm.trans (h₁ : s₁.Calm s₂) (h₂ : s₂.Calm s₃) : s₁.Calm s₃ := by
  refine ⟨h₂.type.trans h₁.type, fun h => h₁.pending (h₂.pending h), ?_⟩
  rcases h₂.idle with h | h
  · rw [h]
    exact h₁.idle
  · exact .inr h

theorem Calm.muted (h : s.Calm s') (hs : s.Muted) : s'.Muted := by
  refine ⟨h.type.trans hs.transcription, ?_, ?_⟩
  · cases hp : s'.pendingResponse with
    | false => rfl
    | true => rw [← hs.pending, h.pending hp]
  · rcases h.idle with hi | hi
    · exact hi.trans hs.idle
    · exact hi

theorem Calm.hushed (h : s.Calm s') (hout : ∀ e ∈ out, e.isCreated = false) : Hushed s out s' :=
  fun hs => ⟨h.muted hs, hout⟩

theorem Calm.then (h : s₁.Calm s₂) (hs : Hushed s₂ out s₃) : Hushed s₁ out s₃ :=
  fun hm => hs (h.muted hm)

theorem Extends.calm (h : s.Extends s') : s.Calm s' := by
  obtain ⟨n, hp, hn, rfl⟩ := h
  exact .same rfl rfl rfl

theorem Shelved.calm (h : s.Shelved s') : s.Calm s' := by
  obtain ⟨i, o, l, hist, heap, rfl⟩ := h
  exact .same rfl rfl rfl

theorem Still.calm (h : s.Still s') : s.Calm s' := ⟨by rw [h.cfg], h.pending, h.idle⟩

theorem Reindexed.calm (h : s.Reindexed s') : s.Calm s' := h.shelved.calm

/-! ## Paced emission and cancellation -/

theorem emitQueued_calm (s : Session F) (inf : Inflight F) (ev : Event F ItemRef) :
    s.Calm (s.emitQueued inf ev).1 := by
  obtain ⟨b, h⟩ := emitQueued_shelved s inf ev
  refine Calm.trans ?_ h.calm
  exact .same rfl rfl rfl

theorem hushed_tickLoop (now : Int) (queue : Events F) (s : Session F)
    (inf : Inflight F) (hqueue : ∀ e ∈ queue, e.isCreated = false) :
    Gives (Hushed s) (tickLoop env now queue s inf) := by
  induction queue generalizing s inf with
  | nil => exact Calm.hushed (.same rfl rfl rfl) (by simp [tickLoop])
  | cons ev rest ih =>
    have hc := emitQueued_calm s { inf with queue := rest } ev
    have hout : ∀ e ∈ (s.emitQueued { inf with queue := rest } ev).2.2, e.isCreated = false := fun e he =>
      ((emitQueued_cases s { inf with queue := rest } ev).sent e he).isCreated.trans
        (hqueue ev mem_cons_self)
    have hemit := hc.hushed hout
    unfold tickLoop
    dsimp only
    split
    · refine hemit.trans fun hs => ?_
      -- nothing is pending, and a transcription session does not arm the timer
      unfold completeResponse
      rw [if_neg (by rw [hs.pending]; simp)]
      refine ⟨?_, by simp⟩
      rcases armIdleTimer_eq env { (s.emitQueued { inf with queue := rest } ev).1 with
        history := _, inflight := none } with h | ⟨ht, _⟩
      · rw [h]
        exact ⟨hs.transcription, hs.pending, hs.idle⟩
      · simp [isTranscription, hs.transcription] at ht
    · split
      · exact fun hs => ⟨⟨(hc.muted hs).transcription, (hc.muted hs).pending, (hc.muted hs).idle⟩, hout⟩
      · exact hemit.trans (ih _ _ fun e he => hqueue e (mem_cons_of_mem _ he))

theorem hushed_drainQueue (s : Session F) (now : Int)
    (hq : ∀ p, s.slot = some p → ClosingQueue p.1 p.2) :
    Gives (Hushed s) (s.drainQueue env now) := by
  unfold drainQueue
  split
  · exact (Calm.refl s).hushed (by simp)
  next inf hinf =>
    split
    · exact (Calm.refl s).hushed (by simp)
    · apply hushed_tickLoop
      exact (hq (inf.respID, inf.queue) (by rw [slot, hinf]; rfl)).isCreated

theorem cancelInflight_calm (s : Session F) (inf : Inflight F) (reason : CancelReason) :
    s.Calm (s.cancelInflight inf reason).1 := by
  obtain ⟨_, _, -, -, -, hs⟩ := s.cancelInflight_cases inf reason
  refine Calm.trans ?_ hs.calm
  refine ⟨rfl, ?_, .inr rfl⟩
  split
  · exact fun h => absurd h (by simp)
  · exact fun h => h

theorem hushed_cancelInflight {inf : Inflight F} (reason : CancelReason)
    (hq : ClosingQueue inf.respID inf.queue) : Gives (Hushed s) (s.cancelInflight inf reason) := by
  refine (cancelInflight_calm s inf reason).hushed ?_
  obtain ⟨out, r, hout, -, hclosing, -⟩ := s.cancelInflight_cases inf reason
  rw [hout]
  refine forall_mem_append.mpr ⟨fun e he => ?_, by simp [isCreated]⟩
  exact (hq.inside (hclosing e he).1 (hclosing e he).2).isCreated

/-! ## Handlers -/

theorem addItem_calm (s : Session F) (it : ParsedItem) (id after : String) :
    s.Calm (s.addItem env it id after).1 := by
  unfold addItem
  split
  · exact .refl s
  · refine Calm.trans ?_ (reindexed_rememberItem ..).calm
    exact .same rfl rfl rfl

theorem truncateInflightItem_calm (s : Session F) (id : String) : s.Calm (s.truncateInflightItem id) := by
  rcases s.truncateInflightItem_cases id with h | ⟨inf, heap, queue, onDone, -, -, h⟩
  · rw [h]
    exact .refl s
  · rw [h]
    exact .same rfl rfl rfl

theorem hushed_cancelResponse (s : Session F) (ce : ClientEvent)
    (hq : ∀ p, s.slot = some p → ClosingQueue p.1 p.2) :
    Gives (Hushed s) (s.cancelResponse env ce) := by
  unfold cancelResponse
  dsimp only
  split
  · exact (Calm.refl s).hushed (by simp [isCreated])
  next inf hinf =>
    have hc := hushed_cancelInflight (s := s) .clientCancelled
      (hq (inf.respID, inf.queue) (by rw [slot, hinf]; rfl))
    split
    · intro hs
      rw [if_neg (by rw [(hc hs).1.pending]; simp)]
      exact hc hs
    · exact (Calm.refl s).hushed (by simp [isCreated])

theorem hushed_autoRespond (s : Session F) (cfg : VadConfig F) :
    Gives (Hushed s) (s.autoRespond env cfg) := by
  intro hs
  have ht : s.isTranscription = true := by simp [isTranscription, hs.transcription]
  simp only [autoRespond, ht, Bool.true_or, if_true]
  exact ⟨hs, by simp⟩

variable [GoFloat F]

theorem commitItem_calm (s : Session F) : s.Calm (s.commitItem env).1 := by
  have h := s.commitItem_cases env
  generalize s.commitItem env = r at h
  cases h with
  | mk => exact ⟨rfl, fun h => h, .inr rfl⟩

theorem hushed_vadStart (s : Session F) (v : VadState F) (startMs ms : F)
    (hq : ∀ p, s.slot = some p → ClosingQueue p.1 p.2) :
    Gives (Hushed s) (s.vadStart v startMs ms) := by
  have hstart : ∀ ms id w, Hushed s [.speechStarted ms id] (s.turnStarted v startMs w) := fun _ _ _ =>
    Calm.hushed (.same rfl rfl rfl) (by simp [isCreated])
  have h := s.vadStart_cases v startMs ms
  generalize s.vadStart v startMs ms = r at h
  cases h with
  | beside => exact hstart _ _ _
  | @cancels inf _ hinf =>
    have hslot : s.slot = some (inf.respID, inf.queue) := congrArg (Option.map _) hinf
    exact (hstart _ _ _).trans (hushed_cancelInflight .turnDetected (hq _ hslot))

theorem handling_hushed : Handling env Hushed
    (fun s out s' => (∀ p, s.slot = some p → ClosingQueue p.1 p.2) → Hushed s out s') := by
  have hcommit : ∀ s : Session F, Gives (Hushed s) (s.commitItem env) := fun s =>
    (commitItem_calm env s).hushed fun e he => @Event.Inside.isCreated F ItemRef "" e
      (.inl (commitItem_silent env s e he))
  refine ⟨Hushed.trans, fun h _ => h, ?_, ?_, ?_, ?_, fun s _ => hcommit s, ?_, ?_⟩
  · exact fun ha hout => ha.calm.hushed fun e he => isCreated_of_isReply (hout e he)
  · exact fun ha h hq => ha.calm.then (h (ha.toAside.apart.keeps.slot ▸ hq))
  · exact fun v' startMs ms _ _ hq => (Still.disarm _).calm.then (hushed_vadStart _ v' startMs ms hq)
  · intro s v _ _ _ _
    refine vadEndOfTurn_of ?_ hcommit Hushed.trans ?_ ?_ ?_ (hushed_autoRespond env) s v
    · exact fun s e => (Calm.refl s).hushed (by simp [isCreated])
    · exact fun s ms id => Calm.hushed (.same rfl rfl rfl) (by simp [isCreated])
    · exact fun s => Calm.hushed (.same rfl rfl rfl) (by simp)
    · exact fun s => Calm.hushed (.same rfl rfl rfl) (by simp)
  · exact fun s _ => Calm.hushed (.same rfl rfl rfl) (by simp [clearBuffer, isCreated])
  · exact fun s id => (truncateInflightItem_calm s id).hushed (by simp)

theorem updateSession_pending (s : Session F) (raw : Raw) :
    (s.updateSession env raw).1.pendingResponse = s.pendingResponse ∧
      ((s.updateSession env raw).1.idleAt = s.idleAt ∨ (s.updateSession env raw).1.idleAt = 0) := by
  rcases updateSession_eq env s raw with ⟨e, h⟩ | ⟨_, cfg, obj, h⟩ | ⟨_, cfg, obj, h⟩ <;> rw [h]
  · exact ⟨rfl, .inl rfl⟩
  · exact ⟨rfl, .inl rfl⟩
  · obtain ⟨t, b, heq, ht⟩ := refreshVAD_eq env { s with cfg := cfg }
    rw [heq]
    exact ⟨rfl, ht⟩

theorem updateSession_type (s : Session F) (raw : Raw) (hs : s.cfg.sessionType = .transcription) :
    (s.updateSession env raw).1.cfg.sessionType = .transcription := by
  have happly : (s.applyConfig env raw).cfg.sessionType = .transcription := by
    unfold applyConfig
    split
    · exact hs
    · split
      · exact hs
      · simp only [SessionConfig.merge, hs, reduceCtorEq, if_false]
  unfold updateSession
  split
  · exact hs
  · dsimp only
    split
    · unfold refreshVAD
      dsimp only
      split <;> exact happly
    · exact happly

theorem hushed_updateSession (s : Session F) (raw : Raw) :
    Gives (Hushed s) (s.updateSession env raw) := by
  intro hs
  obtain ⟨hp, hi⟩ := s.updateSession_pending env raw
  refine ⟨⟨s.updateSession_type env raw hs.transcription, hp.trans hs.pending, ?_⟩, ?_⟩
  · rcases hi with h | h
    · exact h.trans hs.idle
    · exact h
  · unfold updateSession
    split <;> simp [isCreated]

theorem hushed_dispatch (s : Session F) (ce : ClientEvent)
    (hq : ∀ p, s.slot = some p → ClosingQueue p.1 p.2) : Gives (Hushed s) (s.dispatch env ce) := by
  have P := handling_hushed env (F := F)
  refine P.dispatch ?_ ?_ ?_ ?_ ?_ hq
  · exact fun _ => hushed_updateSession env s _
  · refine fun _ => P.createItem fun s₁ it id after _ _ _ _ => (addItem_calm env s₁ it id after).hushed ?_
    unfold addItem
    split <;> simp [conversationItemEvents, isCreated]
  · intro _ hs
    have ht : s.isTranscription = true := by simp [isTranscription, hs.transcription]
    simp only [requestResponse, ht, if_true]
    exact ⟨hs, by simp [isCreated]⟩
  · unfold deleteItem
    split
    · exact (Calm.refl s).hushed (by simp [itemNotFound, isCreated])
    · exact Calm.hushed (.same rfl rfl rfl) (by simp [isCreated])
  · exact fun _ => hushed_cancelResponse env s ce

theorem hushed_fireIdle (s : Session F) (now : Int) : Gives (Hushed s) (s.fireIdle env now) := by
  intro hm
  -- no deadline is armed, so the idle flow does not run
  have h : s.fireIdle env now = (s, []) := by simp [fireIdle, hm.idle]
  rw [h]
  exact ⟨hm, by simp⟩

theorem Muted.call (hs : s.Muted) (hq : ∀ p, s.slot = some p → ClosingQueue p.1 p.2) (c : Call) :
    (s.call env c).1.Muted ∧ ∀ e ∈ (s.call env c).2, e.event.isCreated = false := by
  have hstamp : ∀ {s' : Session F} {out}, Hushed s out s' →
      (s'.stamp out).1.Muted ∧ ∀ e ∈ (s'.stamp out).2, e.event.isCreated = false := by
    intro s' out h
    obtain ⟨hs', hout⟩ := h hs
    refine ⟨(extends_stamp s' out).calm.muted hs', fun e he => ?_⟩
    have hmap := s'.map_stamp out isCreated fun f ev => ev.isCreated_map f
    obtain ⟨ev, hev, heq⟩ := mem_map.mp (hmap ▸ mem_map_of_mem he)
    exact heq.symm.trans (hout ev hev)
  cases c with
  | greeting => exact hstamp ((Calm.refl s).hushed (by simp [isCreated]))
  | handle ce =>
    refine hstamp (Calm.then ?_ (hushed_dispatch env { s with lastClientEventID := ce.eventID } ce hq))
    exact .same rfl rfl rfl
  | tick now =>
    have hdrain := hushed_drainQueue env { s with lastClientEventID := "" } now hq
    refine hstamp (Calm.then ?_ (hdrain.trans ?_))
    · exact .same rfl rfl rfl
    · exact hushed_fireIdle env _ now

/-- The call is an accepted update that names `transcription` while the type is open. -/
def SwitchedBy (env : Env F) (s : Session F) : Call → Prop
  | .handle ce =>
    ce.type = .sessionUpdate ∧ s.cfg.sessionType = .unset ∧
      validateUpdate env { s with lastClientEventID := ce.eventID } ce.session = none ∧
      ∃ u, env.decode.sessionUpdate ce.session = some u ∧
        SessionType.parse u.type = some .transcription
  | _ => False

/-- Only an update changes the configuration. -/
theorem passage_cfg :
    Passage env (fun s _ s' => s'.cfg = s.cfg) (fun s _ s' => s'.cfg = s.cfg) where
  trans h₁ h₂ := h₂.trans h₁
  weaken h := h
  follow h₁ h₂ := h₂.trans h₁
  aside ha _ := ha.cfg
  before ha h := h.trans ha.cfg
  respond s := (createResponse_quiet env s {}).settled.cfg
  start _ _ _ h := h
  commit s := (commitItem_apart env s).cfg
  turn s _ := ((newConversationItem_apart s).trans (storeTurn_frame ..).apart).cfg
  drain s now := (drainQueue_quiet env s now).settled.cfg
  cancel hinf reason := (cancelInflight_quiet hinf reason).settled.cfg
  truncate s id := (truncateInflightItem_quiet s id).settled.cfg

theorem dispatch_cfg (s : Session F) (ce : ClientEvent) (h : ce.type ≠ .sessionUpdate) :
    (s.dispatch env ce).1.cfg = s.cfg := by
  refine (passage_cfg env).handling.dispatch ?_ ?_ ?_ ?_ ?_
  · exact fun hup => absurd hup h
  · exact fun _ => (createItem_settled env s ce).cfg
  · exact fun _ => (requestResponse_settled env s ce).cfg
  · exact (deleteItem_quiet env s _).settled.cfg
  · exact fun _ => (passage_cfg env).cancelResponse s ce

theorem updateSession_switched {raw : Raw} (hs : s.cfg.sessionType ≠ .transcription)
    (h : (s.updateSession env raw).1.cfg.sessionType = .transcription) :
    s.cfg.sessionType = .unset ∧ s.validateUpdate env raw = none ∧
      ∃ u, env.decode.sessionUpdate raw = some u ∧ SessionType.parse u.type = some .transcription := by
  cases hv : s.validateUpdate env raw with
  | some e =>
    simp only [updateSession, hv] at h
    exact absurd h hs
  | none =>
    have happly : (s.applyConfig env raw).cfg.sessionType = .transcription := by
      simp only [updateSession, hv] at h
      split at h
      · rw [← h]
        unfold refreshVAD
        dsimp only
        split <;> rfl
      · exact h
    unfold applyConfig at happly
    split at happly
    · exact absurd happly hs
    · split at happly
      · exact absurd happly hs
      next u hu =>
        by_cases hun : s.cfg.sessionType = .unset
        · refine ⟨hun, rfl, u, hu, ?_⟩
          simp only [SessionConfig.merge, hun, if_true] at happly
          cases hp : SessionType.parse u.type <;> simp [hp] at happly
          rw [happly]
        · simp only [SessionConfig.merge, hun, if_false] at happly
          exact absurd happly hs

/-- Only such an update makes a session a transcription session, and it leaves what
is pending and armed as it was. -/
theorem muted_of_switch (c : Call) (hs : s.isTranscription = false)
    (hidle : s.SwitchedBy env c → s.pendingResponse = false ∧ s.idleAt = 0)
    (hs' : (s.call env c).1.isTranscription = true) : (s.call env c).1.Muted := by
  have hkeep : (s.call env c).1.cfg = s.cfg → (s.call env c).1.Muted := by
    intro h
    rw [isTranscription, h] at hs'
    rw [isTranscription] at hs
    rw [hs] at hs'
    cases hs'
  cases c with
  | greeting => exact hkeep (extends_stamp s _).settled.cfg
  | tick now =>
    apply hkeep
    exact (extends_stamp (s.advance env now).1 (s.advance env now).2).settled.cfg.trans
      ((passage_cfg env).advance s now)
  | handle ce =>
    set s₁ : Session F := { s with lastClientEventID := ce.eventID } with hs₁
    have hst := extends_stamp (s₁.dispatch env ce).1 (s₁.dispatch env ce).2
    by_cases hup : ce.type = .sessionUpdate
    · have hd : s₁.dispatch env ce = s₁.updateSession env ce.session := by
        simp only [dispatch, hup]
      have ht : (s₁.updateSession env ce.session).1.cfg.sessionType = .transcription := by
        rw [← hd, ← hst.settled.cfg]
        exact of_decide_eq_true hs'
      have hsw := updateSession_switched env (s := s₁) (by simpa [isTranscription] using hs) ht
      obtain ⟨hp, hi⟩ := hidle ⟨hup, hsw⟩
      obtain ⟨hp', hi'⟩ := s₁.updateSession_pending env ce.session
      refine hst.calm.muted ?_
      rw [hd]
      refine ⟨ht, hp'.trans hp, ?_⟩
      rcases hi' with h | h
      · exact h.trans hi
      · exact h
    · apply hkeep
      exact hst.settled.cfg.trans (dispatch_cfg env s₁ ce hup)

/-- The session is muted from the call on which it becomes a transcription session. -/
def MutedIfTranscription (s : Session F) : Prop := s.isTranscription = true → s.Muted

theorem MutedIfTranscription.run (calls : List Call) {L : Ledger String}
    (hL : s.Tracks L) (hs : s.MutedIfTranscription)
    (hidle : ∀ pre c post, calls = pre ++ c :: post → (s.run env pre).SwitchedBy env c →
      (s.run env pre).pendingResponse = false ∧ (s.run env pre).idleAt = 0) :
    (s.run env calls).MutedIfTranscription := by
  refine (run_invariant env (P := fun s => (∃ L, s.Tracks L) ∧ s.MutedIfTranscription)
    (Q := fun s c => s.SwitchedBy env c → s.pendingResponse = false ∧ s.idleAt = 0) ?_ hidle
    ⟨⟨L, hL⟩, hs⟩).2
  rintro s c ⟨⟨L, hL⟩, hs⟩ hidle
  obtain ⟨L', -, hL'⟩ := tracks_call env hL c
  refine ⟨⟨L', hL'⟩, fun ht => ?_⟩
  by_cases h : s.isTranscription = true
  · exact ((hs h).call env hL.queue c).1
  · exact muted_of_switch env c (by simpa using h) hidle ht

theorem Muted.trace (calls : List Call) {L : Ledger String} (hL : s.Tracks L)
    (hs : s.Muted) : ∀ e ∈ s.trace env calls, e.event.isCreated = false := by
  induction calls generalizing s L with
  | nil => simp [Session.trace]
  | cons c calls ih =>
    obtain ⟨L', -, hL'⟩ := tracks_call env hL c
    obtain ⟨hm, hout⟩ := hs.call env hL.queue c
    intro e he
    rcases mem_append.mp he with h | h
    · exact hout e h
    · exact ih hL' hm e h

end Session

variable [GoFloat F]

/-- A run in which every update that turns the session into a transcription session
finds neither a queued response nor an armed idle deadline: from then on no call
opens a response. -/
theorem transcription_never_responds (env : Env F) (setup : Setup) (calls : List Call)
    (hidle : ∀ pre c post, calls = pre ++ c :: post →
      ((setup.session env).run env pre).SwitchedBy env c →
      ((setup.session env).run env pre).pendingResponse = false ∧
        ((setup.session env).run env pre).idleAt = 0) :
    ∀ pre post, calls = pre ++ post → ((setup.session env).run env pre).isTranscription = true →
      ∀ e ∈ ((setup.session env).run env pre).trace env post, e.event.isCreated = false := by
  intro pre post hsplit ht
  have hfresh := setup.fresh env
  obtain ⟨L, -, hL⟩ := Session.tracks_run env pre (setup.tracks env)
  have hstart : (setup.session env).MutedIfTranscription :=
    fun h => ⟨by simpa [Session.isTranscription] using h, hfresh.pending, hfresh.idle⟩
  have hmuted := hstart.run env pre (setup.tracks env) (by
    intro p c q hp hsw
    exact hidle p c (q ++ post) (by rw [hsplit, hp]; simp) hsw)
  exact (hmuted ht).trace env post hL

/-! ## An armed deadline survives the switch -/

open Lib in
def transcriptionPayload : Raw := Utf8.bytes "\x7b\"type\":\"transcription\"\x7d"

open Lib in
def idleEnv : Env Rat :=
  answering (Utf8.bytes "Hello") (idleDecoders
    [(transcriptionPayload, { SessionUpdate.absent with type := "transcription" })] [])

def idleSession : Session Rat := ({ id := "sess_1" } : Setup).session idleEnv

/-- A response arms the deadline, then the session becomes a transcription session. -/
def armedSwitch : List Call :=
  [.handle { type := .sessionUpdate, session := idlePayload }, .handle { type := .responseCreate },
    .handle { type := .sessionUpdate, session := transcriptionPayload }]

/-- The deadline fires in the transcription session and opens a response. -/
theorem transcription_idle_responds :
    (idleSession.run idleEnv armedSwitch).isTranscription = true ∧
      ∃ e ∈ (idleSession.run idleEnv armedSwitch).trace idleEnv [.tick 5000000001],
        e.event.isCreated = true := by
  decide +kernel

def earlySwitch : List Call :=
  [.handle { type := .sessionUpdate, session := idlePayload },
    .handle { type := .sessionUpdate, session := transcriptionPayload }]

def lateCalls : List Call := [.handle { type := .responseCreate }, .tick 5000000001]

theorem transcription_never_responds_early :
    (idleSession.run idleEnv earlySwitch).isTranscription = true ∧
      ∀ e ∈ (idleSession.run idleEnv earlySwitch).trace idleEnv lateCalls,
        e.event.isCreated = false := by
  have ht : (idleSession.run idleEnv earlySwitch).isTranscription = true := by decide +kernel
  have hquiet : ∀ n ≤ 4, (idleSession.run idleEnv ((earlySwitch ++ lateCalls).take n)).pendingResponse = false ∧
      (idleSession.run idleEnv ((earlySwitch ++ lateCalls).take n)).idleAt = 0 := by
    decide +kernel
  refine ⟨ht, transcription_never_responds idleEnv { id := "sess_1" } (earlySwitch ++ lateCalls) ?_
    earlySwitch lateCalls rfl ht⟩
  intro pre c post hsplit _
  have hlen : pre.length ≤ 4 := by
    have := congrArg List.length hsplit
    simp [earlySwitch, lateCalls] at this
    omega
  have hpre : (earlySwitch ++ lateCalls).take pre.length = pre := by
    rw [hsplit]
    simp
  have h := hquiet pre.length hlen
  rw [hpre] at h
  exact h

end MockAgents.Realtime
