import MockAgents.Realtime.Proofs.Conversation
/-!
# Handlers as compositions

A property of steps that is closed under composition holds of every handler as soon as it
holds of the few steps the handlers are made of: what is beside the conversation, a
response, an emission, a cancellation, the start of a turn and its commit.
-/

namespace MockAgents.Realtime

open List Event GoFloat

variable {F ι : Type}
variable (env : Env F)

def Event.isRemark : Event F ι → Bool
  | .itemAdded .. | .itemDone .. | .bufferCommitted .. | .responseCreated _ | .responseDone _
  | .ladder .. => false
  | _ => true

/-- What a request is answered with where it changes nothing of the conversation. -/
def Event.isReply : Event F ι → Bool
  | .error _ | .itemRetrieved _ | .itemTruncated .. => true
  | _ => false

theorem Event.isRemark_of_isReply {ev : Event F ι} (h : ev.isReply = true) : ev.isRemark = true := by
  cases ev <;> first
    | rfl
    | exact absurd h (by simp [isReply])

theorem Event.moves_of_isRemark {ev : Event F ι} (h : ev.isRemark = true) : ev.moves = false := by
  cases ev <;> first
    | rfl
    | exact absurd h (by simp [isRemark])

namespace Session

variable {s s' s₁ s₂ s₃ : Session F} {out o₁ o₂ : Events F} {inf : Inflight F}
variable {ce : ClientEvent} {v : VadState F}

/-- The step is beside the conversation and its responses. -/
structure Aside (s s' : Session F) : Prop where
  unmoved : s.Unmoved s'
  inflight : s'.inflight = s.inflight
  cfg : s'.cfg = s.cfg
  responded : s'.respondedWithAudio = s.respondedWithAudio

/-- Only what no response and no item depends on was written. -/
theorem Aside.scratch (h : s' = { s with
    history := s'.history, audioBuffer := s'.audioBuffer, lastClientEventID := s'.lastClientEventID
    heap := s'.heap, idleAt := s'.idleAt, idleFired := s'.idleFired, bufferedMs := s'.bufferedMs
    pendingResponse := s'.pendingResponse, audioBuf := s'.audioBuf, vadCommitting := s'.vadCommitting
    lastToolCalls := s'.lastToolCalls, audioWindowStartMs := s'.audioWindowStartMs
    genCalls := s'.genCalls, clockReads := s'.clockReads }) : s.Aside s' := by
  rw [h]
  exact ⟨⟨rfl, le_rfl, rfl, rfl, rfl, .inl rfl⟩, rfl, rfl, rfl⟩

theorem Aside.refl (s : Session F) : s.Aside s := .scratch rfl

theorem Aside.trans (h₁ : s₁.Aside s₂) (h₂ : s₂.Aside s₃) : s₁.Aside s₃ :=
  ⟨h₁.unmoved.trans h₂.unmoved, h₂.inflight.trans h₁.inflight, h₂.cfg.trans h₁.cfg,
    h₂.responded.trans h₁.responded⟩

theorem Extends.aside (h : s.Extends s') : s.Aside s' := by
  obtain ⟨n, hp, hn, rfl⟩ := h
  exact ⟨⟨rfl, hn, rfl, rfl, rfl, .inl rfl⟩, rfl, rfl, rfl⟩

theorem armIdleTimer_aside (s : Session F) : s.Aside (s.armIdleTimer env) := by
  rcases s.armIdleTimer_eq env with h | ⟨_, t, h⟩
  · rw [h]
    exact .scratch rfl
  · rw [h]
    exact .scratch rfl

theorem failedResponse_aside (s : Session F) (respID : String) (msg : Lib.Bytes)
    (rc : ResponseCtx) : s.Aside (s.failedResponse env respID msg rc).1 := by
  unfold failedResponse
  split
  · exact .refl s
  · exact armIdleTimer_aside env s

theorem Prepared.aside {rc : ResponseCtx} {respID : String} (h : s.Prepared rc respID s') : s.Aside s' := by
  obtain ⟨n, calls, gens, hn, rfl⟩ := h.eq
  exact ⟨⟨rfl, hn, rfl, rfl, rfl, .inl rfl⟩, rfl, rfl, rfl⟩

theorem Prepared.failed {rc : ResponseCtx} {respID : String} (h : s.Prepared rc respID s') (env : Env F)
    (msg : Lib.Bytes) : s.Aside (s'.failedResponse env respID msg rc).1 :=
  h.aside.trans (failedResponse_aside env s' respID msg rc)

/-- The step leaves the responses and the configuration alone. -/
structure Apart (s s' : Session F) : Prop where
  id : s'.id = s.id
  counter : s.counter ≤ s'.counter
  cfg : s'.cfg = s.cfg
  inflight : s'.inflight = s.inflight
  responded : s'.respondedWithAudio = s.respondedWithAudio

theorem Apart.trans (h₁ : s₁.Apart s₂) (h₂ : s₂.Apart s₃) : s₁.Apart s₃ :=
  ⟨h₂.id.trans h₁.id, h₁.counter.trans h₂.counter, h₂.cfg.trans h₁.cfg, h₂.inflight.trans h₁.inflight,
    h₂.responded.trans h₁.responded⟩

theorem Aside.apart (h : s.Aside s') : s.Apart s' :=
  ⟨h.unmoved.id, h.unmoved.counter, h.cfg, h.inflight, h.responded⟩

theorem Shelved.apart (h : s.Shelved s') : s.Apart s' := by
  obtain ⟨i, o, l, hist, heap, rfl⟩ := h
  exact ⟨rfl, le_rfl, rfl, rfl, rfl⟩

theorem addItem_apart (s : Session F) (it : ParsedItem) (id after : String) :
    s.Apart (s.addItem env it id after).1 := by
  unfold addItem
  split
  · exact (Aside.refl s).apart
  · refine Apart.trans ?_ (reindexed_rememberItem ..).shelved.apart
    exact ⟨rfl, le_rfl, rfl, rfl, rfl⟩

theorem newConversationItem_apart (s : Session F) : s.Apart s.newConversationItem.1 :=
  (extends_nextID s .item).aside.apart.trans (reindexed_joinTail ..).shelved.apart

theorem announce_apart (s : Session F) (v : VadState F) :
    s.Apart { (s.nextID .item).1 with vad := some { v with pendingItemID := (s.nextID .item).2 } } :=
  ⟨rfl, (s.nextID_lt .item).le, rfl, rfl, rfl⟩

theorem Aside.vad {v v' : VadState F} (hv : s.vad = some v)
    (hid : v'.pendingItemID = v.pendingItemID) : s.Aside { s with vad := some v' } :=
  ⟨⟨rfl, le_rfl, rfl, rfl, rfl, .inl (by simp only [pendingItem, hv, hid])⟩, rfl, rfl, rfl⟩

variable [GoFloat F]

theorem vadReset_pendingItem (s : Session F) : s.vadReset.pendingItem = none := by
  unfold pendingItem vadReset
  cases s.vad <;> rfl

theorem vadReset_aside (s : Session F) : s.Aside s.vadReset :=
  ⟨⟨rfl, le_rfl, rfl, rfl, rfl, .inr s.vadReset_pendingItem⟩, rfl, rfl, rfl⟩

theorem mem_transcriptionEvents {id : String} {seconds : F} {e : Event F ItemRef}
    (h : e ∈ s.transcriptionEvents env id seconds) :
    (∃ chunk b, e = .transcriptionDelta id chunk b) ∨
      ∃ text usage l, e = .transcriptionCompleted id text usage l := by
  unfold transcriptionEvents at h
  split at h
  · simp at h
  · simp only [mem_append, mem_map, mem_singleton] at h
    rcases h with ⟨c, _, rfl⟩ | rfl
    · exact .inl ⟨_, _, rfl⟩
    · exact .inr ⟨_, _, _, rfl⟩

/-- The item of a commit is the announced one or new. -/
theorem adoptItem_cases (s : Session F) : ∃ n order last vad, s.counter ≤ n ∧
    s.adoptItem.1 = { s with counter := n, itemOrder := order, lastItemID := last, vad := vad } ∧
    ((s.pendingItem = some s.adoptItem.2.2 ∧ vad = s.vadReset.vad) ∨ (s.pendingItem = none ∧
      vad = s.vad ∧ s.adoptItem.2.2 = (s.nextID .item).2 ∧ n = (s.nextID .item).1.counter)) := by
  unfold adoptItem
  split
  next id hpend =>
    exact ⟨_, _, _, _, le_rfl, rfl, .inl ⟨hpend, rfl⟩⟩
  next hpend =>
    exact ⟨_, _, _, _, (s.nextID_lt .item).le, rfl, .inr ⟨hpend, rfl, rfl, rfl⟩⟩

/-- What a commit leaves and says. -/
inductive Committed (env : Env F) (s : Session F) : Session F × List (Event F ItemRef) → Prop
  | mk {n items order last history heap vad prev id item t} (seconds : F) (hn : s.counter ≤ n)
      (hid : (s.pendingItem = some id ∧ vad = s.vadReset.vad) ∨ (s.pendingItem = none ∧ vad = s.vad ∧
        id = (s.nextID .item).2 ∧ n = (s.nextID .item).1.counter)) :
      Committed env s ({ s with
        counter := n, items := items, itemOrder := order, lastItemID := last, history := history
        heap := heap, vad := vad, audioBuffer := false, idleAt := 0, idleFired := false, audioBuf := []
        bufferedMs := GoFloat.ofInt 0, audioWindowStartMs := GoFloat.ofInt 0 },
        .bufferCommitted prev id :: (conversationItemEvents prev item ++ transcriptionEvents env t id seconds))

theorem commitItem_cases (s : Session F) : Committed env s (s.commitItem env) := by
  unfold commitItem
  dsimp only
  set s₁ : Session F := { s with
    audioBuffer := false, idleAt := 0, idleFired := false
    bufferedMs := ofInt 0, audioWindowStartMs := ofInt 0 }
  obtain ⟨n, o, l, vad, hn, hs, hid⟩ := s₁.adoptItem_cases
  obtain ⟨i, o', l', hist, heap, hst⟩ := storeTurn_frame
    { s₁.adoptItem.1 with history := s₁.adoptItem.1.history ++ [⟨"user", audioInputPlaceholder⟩] }
    s₁.adoptItem.2.2 _ _
  rw [hst, hs]
  exact .mk _ hn hid

theorem commitItem_apart (s : Session F) : s.Apart (s.commitItem env).1 := by
  have h := s.commitItem_cases env
  generalize s.commitItem env = r at h
  cases h with
  | mk seconds hn => exact ⟨rfl, hn, rfl, rfl, rfl⟩

theorem markAudioWindow_eq (s : Session F) (keepMs : F) :
    ∃ ms, s.markAudioWindow keepMs = { s with audioWindowStartMs := ms } := by
  unfold markAudioWindow
  dsimp only
  split
  · exact ⟨_, rfl⟩
  · exact ⟨s.audioWindowStartMs, rfl⟩

/-- A turn with an announced id is on. -/
def turnStarted (s : Session F) (v : VadState F) (startMs windowMs : F) : Session F :=
  { (s.nextID .item).1 with
    vad := some { v with
      speechActive := true, silenceMs := GoFloat.ofInt 0, speechStartMs := startMs
      pendingItemID := (s.nextID .item).2 }
    audioWindowStartMs := windowMs }

/-- How a turn starts: beside a response in flight, or by its cancellation. -/
inductive Starts (s : Session F) (v : VadState F) (startMs : F) :
    Session F × List (Event F ItemRef) → Prop
  | beside (ms : Int) (w : F) :
    Starts s v startMs (s.turnStarted v startMs w, [.speechStarted ms (s.nextID .item).2])
  | cancels {inf : Inflight F} {w : F} (hinf : (s.turnStarted v startMs w).inflight = some inf) (ms : Int) :
    Starts s v startMs (((s.turnStarted v startMs w).cancelInflight inf .turnDetected).1,
      .speechStarted ms (s.nextID .item).2 ::
        ((s.turnStarted v startMs w).cancelInflight inf .turnDetected).2)

theorem vadStart_cases (s : Session F) (v : VadState F) (startMs ms : F) :
    Starts s v startMs (s.vadStart v startMs ms) := by
  unfold vadStart
  dsimp only
  obtain ⟨w, hw⟩ := markAudioWindow_eq { (s.nextID .item).1 with vad := some { v with
    speechActive := true, silenceMs := ofInt 0, speechStartMs := startMs
    pendingItemID := (s.nextID .item).2 } } (add ms (ofInt v.cfg.prefixPaddingMs))
  rw [hw]
  split
  · exact .beside _ w
  next inf hinf =>
    split
    · refine .cancels (w := w) ?_ _
      exact hinf
    · exact .beside _ w

def hearsSpeech (env : Env F) (s : Session F) (audio : Lib.Bytes) : Bool :=
  match s.vad with
  | none => false
  | some v =>
    let (_, energy) :=
      audioEnergy (Lib.Base64.decodeString audio) audio.length (codecFor env s.cfg.inputFormat)
    GoFloat.lt (GoFloat.ofInt 0) energy &&
      GoFloat.le (GoFloat.mul v.cfg.threshold (GoFloat.lit 1 1)) energy

/-- Only the clocks of the detector differ. -/
structure SameTurn (v v' : VadState F) : Prop where
  cfg : v'.cfg = v.cfg
  active : v'.speechActive = v.speechActive
  pending : v'.pendingItemID = v.pendingItemID

/-- What an append does, after the audio is buffered. -/
inductive Appends (env : Env F) (s : Session F) : Bool → Session F × List (Event F ItemRef) → Prop
  | deaf (hv : s.vad = none) : Appends env s false (s, [])
  | start {v v' : VadState F} (hv : s.vad = some v) (hoff : v.speechActive = false)
      (hsame : SameTurn v v') (startMs ms : F) :
      Appends env s true (vadStart { s with idleAt := 0, idleFired := false } v' startMs ms)
  | speaks {v v' : VadState F} (hv : s.vad = some v) (hon : v.speechActive = true)
      (hsame : SameTurn v v') :
      Appends env s true ({ s with idleAt := 0, idleFired := false, vad := some v' }, [])
  | waits {v v' : VadState F} (hv : s.vad = some v) (hsame : SameTurn v v') :
      Appends env s false ({ s with vad := some v' }, [])
  | stop {v v' : VadState F} (hv : s.vad = some v) (hon : v.speechActive = true)
      (hsame : SameTurn v v') :
      Appends env s false (vadEndOfTurn env { s with vad := some v' } v')

theorem vadAppend_cases (hv : s.vad = some v) (ms energy : F) :
    Appends env s (lt (ofInt 0) energy &&
      le (mul v.cfg.threshold (lit 1 1)) energy) (s.vadAppend env v ms energy) := by
  unfold vadAppend
  dsimp only
  cases hs : lt (ofInt 0) energy &&
    le (mul v.cfg.threshold (lit 1 1)) energy with
  | true =>
    cases hon : v.speechActive with
    | false =>
      refine .start hv hon ?_ _ _
      exact ⟨rfl, hon.symm, rfl⟩
    | true => exact .speaks hv hon ⟨rfl, hon.symm, rfl⟩
  | false =>
    cases hon : v.speechActive with
    | false => exact .waits hv ⟨rfl, hon.symm, rfl⟩
    | true =>
      simp only [Bool.not_true, Bool.false_eq_true, if_false]
      split
      · exact .waits hv ⟨rfl, hon.symm, rfl⟩
      · exact .stop hv hon ⟨rfl, hon.symm, rfl⟩

theorem appendAudio_cases (s : Session F) (audio : Lib.Bytes) :
    ∃ ms buf, Appends env { s with audioBuffer := true, bufferedMs := ms, audioBuf := buf }
      (s.hearsSpeech env audio) (s.appendAudio env audio) := by
  unfold appendAudio hearsSpeech
  cases hv : s.vad with
  | none => exact ⟨_, _, .deaf rfl⟩
  | some v => exact ⟨_, _, vadAppend_cases env rfl _ _⟩

/-- The step is beside the turns as well, queues no response and arms no deadline. -/
structure Still (s s' : Session F) : Prop extends Aside s s' where
  pending : s'.pendingResponse = true → s.pendingResponse = true
  idle : s'.idleAt = s.idleAt ∨ s'.idleAt = 0
  turn : s'.vad.map (fun v => (v.speechActive, v.pendingItemID)) =
    s.vad.map fun v => (v.speechActive, v.pendingItemID)

omit [GoFloat F] in
theorem Still.trans (h₁ : s₁.Still s₂) (h₂ : s₂.Still s₃) : s₁.Still s₃ := by
  refine ⟨h₁.toAside.trans h₂.toAside, fun h => h₁.pending (h₂.pending h), ?_, h₂.turn.trans h₁.turn⟩
  rcases h₂.idle with h | h
  · rw [h]
    exact h₁.idle
  · exact .inr h

omit [GoFloat F] in
theorem Still.scratch (h : s' = { s with
    history := s'.history, audioBuffer := s'.audioBuffer, lastClientEventID := s'.lastClientEventID
    heap := s'.heap, idleFired := s'.idleFired, bufferedMs := s'.bufferedMs, audioBuf := s'.audioBuf
    vadCommitting := s'.vadCommitting, audioWindowStartMs := s'.audioWindowStartMs }) : s.Still s' := by
  rw [h]
  exact ⟨.scratch rfl, fun h => h, .inl rfl, rfl⟩

omit [GoFloat F] in
theorem Still.disarm (s : Session F) : s.Still { s with idleAt := 0, idleFired := false } :=
  ⟨.scratch rfl, fun h => h, .inr rfl, rfl⟩

omit [GoFloat F] in
theorem Still.clock {v v' : VadState F} (hv : s.vad = some v) (hsame : SameTurn v v') :
    s.Still { s with vad := some v' } :=
  ⟨.vad hv hsame.pending, fun h => h, .inl rfl, by simp [hv, hsame.active, hsame.pending]⟩

omit [GoFloat F] in
theorem Extends.still (h : s.Extends s') : s.Still s' := by
  obtain ⟨n, heap, hn, rfl⟩ := h
  exact ⟨⟨⟨rfl, hn, rfl, rfl, rfl, .inl rfl⟩, rfl, rfl, rfl⟩, fun h => h, .inl rfl, rfl⟩

section
variable {env : Env F} {U : Session F → Events F → Session F → Prop}
variable (herror : ∀ s e, U s [.error e] s) (hcommit : ∀ s, Gives (U s) (s.commitItem env))
include herror hcommit

theorem commitBuffer_of (s : Session F) : Gives (U s) (s.commitBuffer env) := by
  unfold commitBuffer
  dsimp only
  split
  · exact herror s _
  · split
    · exact herror s _
    · exact hcommit s

/-- The end of a turn is a stop, a commit and the answer to it. -/
theorem vadEndOfTurn_of (htrans : ∀ {s₁ s₂ s₃ o₁ o₂}, U s₁ o₁ s₂ → U s₂ o₂ s₃ → U s₁ (o₁ ++ o₂) s₃)
    (hstop : ∀ s ms id, U s [.speechStopped ms id] { s with vadCommitting := true })
    (hlift : ∀ s, U s [] { s with vadCommitting := false }) (hreset : ∀ s, U s [] s.vadReset)
    (hanswer : ∀ s cfg, Gives (U s) (s.autoRespond env cfg))
    (s : Session F) (v : VadState F) : Gives (U s) (s.vadEndOfTurn env v) := by
  unfold vadEndOfTurn
  dsimp only
  have hturn := htrans (htrans (hstop s (toInt v.totalMs) v.pendingItemID)
    (commitBuffer_of herror hcommit _)) (hlift _)
  rw [append_nil] at hturn
  split
  · have := htrans hturn (hreset _)
    rwa [append_nil] at this
  · exact htrans hturn (hanswer _ _)

end

/-- What a property of steps has to satisfy to hold of every client event.  `U` holds of a step
from any state; `R` also of the steps that move the queue of the response in flight. -/
structure Handling (env : Env F) (U R : Session F → List (Event F ItemRef) → Session F → Prop) :
    Prop where
  trans : ∀ {s₁ s₂ s₃ o₁ o₂}, U s₁ o₁ s₂ → U s₂ o₂ s₃ → U s₁ (o₁ ++ o₂) s₃
  weaken : ∀ {s s' out}, U s out s' → R s out s'
  aside : ∀ {s s' out}, s.Still s' → (∀ e ∈ out, e.isReply = true) → U s out s'
  before : ∀ {s₁ s₂ s₃ out}, s₁.Still s₂ → R s₂ out s₃ → R s₁ out s₃
  start : ∀ {s : Session F} {v : VadState F} (v' startMs ms), s.vad = some v → v.speechActive = false →
    R s (vadStart { s with idleAt := 0, idleFired := false } v' startMs ms).2
      (vadStart { s with idleAt := 0, idleFired := false } v' startMs ms).1
  stop : ∀ {s : Session F} {v : VadState F}, s.audioBuffer = true → s.vad = some v →
    v.speechActive = true → R s (s.vadEndOfTurn env v).2 (s.vadEndOfTurn env v).1
  commit : ∀ s, R s (s.commitItem env).2 (s.commitItem env).1
  clear : ∀ s, R s s.clearBuffer.2 s.clearBuffer.1
  truncate : ∀ s id, U s [] (s.truncateInflightItem id)

namespace Handling

variable {env : Env F} {U R : Session F → Events F → Session F → Prop}

section
variable (P : Handling env U R)
include P

theorem comes (ha : s₁.Still s₂) (h : U s₂ out s₃) : U s₁ out s₃ :=
  P.trans (P.aside ha (by simp : ∀ e ∈ [], _)) h

theorem refl (s : Session F) : U s [] s := P.aside (.scratch rfl) (by simp)

theorem error (ha : s.Still s') (e : ErrorBody) : U s [.error e] s' :=
  P.aside ha (by simp [isReply])

theorem commitBuffer (s : Session F) : Gives (R s) (s.commitBuffer env) :=
  commitBuffer_of (fun _ e => P.weaken (P.error (.scratch rfl) e)) P.commit s

theorem appendAudio (s : Session F) (audio : Lib.Bytes) :
    Gives (R s) (s.appendAudio env audio) := by
  obtain ⟨ms, buf, h⟩ := appendAudio_cases env s audio
  have hbuffer : s.Still { s with audioBuffer := true, bufferedMs := ms, audioBuf := buf } := .scratch rfl
  refine P.before hbuffer ?_
  generalize s.hearsSpeech env audio = speech at h
  generalize s.appendAudio env audio = r at h
  cases h with
  | deaf => exact P.weaken (P.refl _)
  | start hv hoff => exact P.start _ _ _ hv hoff
  | speaks hv hon hsame =>
    exact P.weaken (P.aside ((Still.disarm _).trans (Still.clock hv hsame)) (by simp))
  | waits hv hsame => exact P.weaken (P.aside (.clock hv hsame) (by simp))
  | stop hv hon hsame =>
    exact P.before (.clock hv hsame) (P.stop rfl rfl (hsame.active.trans hon))

theorem requestResponse
    (h : Gives (U { s with idleFired := false })
      (Session.createResponse env { s with idleFired := false } ce)) :
    Gives (U s) (s.requestResponse env ce) := by
  unfold Session.requestResponse
  split
  · exact P.error (.scratch rfl) _
  · split
    · exact P.error (.scratch rfl) _
    · exact P.comes (.scratch rfl) h

/-- A client item takes the id it names, or one minted for it. -/
theorem createItem (hadd : ∀ s₁ it id after, s.Still s₁ → id ≠ "" → id ∉ s₁.items →
      ((parseItem env ce.item).id = id ∨ ¬ s.Minted id) →
      Gives (U s₁) (s₁.addItem env it id after)) : Gives (U s) (s.createItem env ce) := by
  unfold Session.createItem
  dsimp only
  have h₁ := Still.disarm s
  split
  · exact P.error h₁ _
  · split
    · have h₂ := h₁.trans (extends_nextID _ .item).still
      refine P.comes h₂ (hadd _ _ _ _ h₂ (nextID_ne_empty _ .item) (nextID_fresh _ .item) (.inr ?_))
      exact fun hm => s.nextID_ne_minted .item hm rfl
    next hne =>
      split
      · exact P.error h₁ _
      next hnew =>
        refine P.comes h₁ (hadd _ _ _ _ h₁ hne ?_ (.inl rfl))
        exact fun hm => hnew (AList.lookup_isSome.mpr hm)

theorem truncateItem (s : Session F) (ce : ClientEvent) : Gives (U s) (s.truncateItem env ce) := by
  unfold Session.truncateItem
  split
  · exact P.error (.scratch rfl) _
  · dsimp only
    have hack : ∀ t : Session F, U t [.itemTruncated ce.itemID ce.contentIndex ce.audioEndMs] t :=
      fun t => P.aside (.scratch rfl) (by simp [isReply])
    split
    · exact P.trans (P.truncate s _) (hack _)
    · split
      · exact P.comes (.scratch rfl) (hack _)
      · exact P.error (.scratch rfl) _

/-- An event is handled, given what it asks for itself. -/
theorem dispatch (hupdate : ce.type = .sessionUpdate →
      Gives (U s) (s.updateSession env ce.session))
    (hitem : ce.type = .itemCreate → Gives (U s) (s.createItem env ce))
    (hrequest : ce.type = .responseCreate → Gives (U s) (s.requestResponse env ce))
    (hdelete : Gives (U s) (s.deleteItem env ce.itemID))
    (hcancel : ce.type = .responseCancel → Gives (R s) (s.cancelResponse env ce)) :
    Gives (R s) (s.dispatch env ce) := by
  unfold Session.dispatch
  split
  · exact P.weaken (hupdate ‹_›)
  · exact P.appendAudio s _
  · exact P.clear s
  · exact P.commitBuffer s
  · exact P.weaken (hitem ‹_›)
  · exact P.weaken (hrequest ‹_›)
  · unfold retrieveItem
    split <;> exact P.weaken (P.aside (.scratch rfl) (by simp [itemNotFound, isReply]))
  · exact P.weaken hdelete
  · exact P.weaken (P.truncateItem s ce)
  · exact hcancel ‹_›
  · refine P.weaken (P.aside (.scratch rfl) ?_)
    simp only [mem_singleton, forall_eq, rejectUnknown]
    split <;> rfl

end

end Handling

/-- What a property of steps has to satisfy.  `U` holds of a step from any state; `R` also
of the steps that move the queue of the response in flight, of which a call has one. -/
structure Passage (env : Env F) (U R : Session F → List (Event F ItemRef) → Session F → Prop) :
    Prop where
  trans : ∀ {s₁ s₂ s₃ o₁ o₂}, U s₁ o₁ s₂ → U s₂ o₂ s₃ → U s₁ (o₁ ++ o₂) s₃
  weaken : ∀ {s s' out}, U s out s' → R s out s'
  follow : ∀ {s₁ s₂ s₃ o₁ o₂}, R s₁ o₁ s₂ → U s₂ o₂ s₃ → R s₁ (o₁ ++ o₂) s₃
  aside : ∀ {s s' out}, s.Aside s' → (∀ e ∈ out, e.isRemark = true) → U s out s'
  before : ∀ {s₁ s₂ s₃ out}, s₁.Aside s₂ → R s₂ out s₃ → R s₁ out s₃
  respond : ∀ s, U s (s.createResponse env {}).2 (s.createResponse env {}).1
  start : ∀ {s' out} s (v : VadState F) ms,
    R { (s.nextID .item).1 with vad := some { v with pendingItemID := (s.nextID .item).2 } } out s' →
      R s (.speechStarted ms (s.nextID .item).2 :: out) s'
  commit : ∀ s, U s (s.commitItem env).2 (s.commitItem env).1
  turn : ∀ s ms, U s ([.timeoutTriggered ms s.newConversationItem.2.2,
      .bufferCommitted s.newConversationItem.2.1 s.newConversationItem.2.2] ++
      conversationItemEvents s.newConversationItem.2.1
        (s.newConversationItem.1.storeTurn s.newConversationItem.2.2 .nonString []).2)
    (s.newConversationItem.1.storeTurn s.newConversationItem.2.2 .nonString []).1
  drain : ∀ s now, R s (s.drainQueue env now).2 (s.drainQueue env now).1
  cancel : ∀ {s inf}, s.inflight = some inf → ∀ reason,
    R s (s.cancelInflight inf reason).2 (s.cancelInflight inf reason).1
  truncate : ∀ s id, U s [] (s.truncateInflightItem id)

namespace Passage

variable {env : Env F} {U R : Session F → Events F → Session F → Prop}

section
variable (P : Passage env U R)
include P

theorem after (h : U s₁ out s₂) (ha : s₂.Aside s₃) : U s₁ out s₃ := by
  have := P.trans h (P.aside ha (by simp : ∀ e ∈ [], _))
  rwa [append_nil] at this

theorem comes (ha : s₁.Aside s₂) (h : U s₂ out s₃) : U s₁ out s₃ :=
  P.trans (P.aside ha (by simp : ∀ e ∈ [], _)) h

theorem refl (s : Session F) : U s [] s := P.aside (.refl s) (by simp)

theorem error (ha : s.Aside s') (e : ErrorBody) : U s [.error e] s' :=
  P.aside ha (by simp [isRemark])

/-! ## Audio -/

theorem autoRespond (s : Session F) (cfg : VadConfig F) : Gives (U s) (s.autoRespond env cfg) := by
  unfold Session.autoRespond
  split
  · exact P.refl s
  · split
    · exact P.respond s
    · exact P.aside (.scratch rfl) (by simp)

theorem vadStart (s : Session F) (v : VadState F) (startMs ms : F) :
    Gives (R s) (s.vadStart v startMs ms) := by
  let v' : VadState F :=
    { v with speechActive := true, silenceMs := ofInt 0, speechStartMs := startMs }
  have h := s.vadStart_cases v startMs ms
  generalize s.vadStart v startMs ms = r at h
  cases h with
  | beside => exact P.start s v' _ (P.weaken (P.aside (.scratch rfl) (by simp)))
  | cancels hinf => exact P.start s v' _ (P.before (.scratch rfl) (P.cancel hinf .turnDetected))

/-! ## The clock -/

theorem idleTimeout (s : Session F) : Gives (U s) (s.idleTimeout env) := by
  unfold Session.idleTimeout
  split
  · exact P.refl s
  · split
    · exact P.refl s
    · dsimp only
      refine P.trans ?_ (P.respond _)
      exact P.comes (.scratch rfl) (P.after (P.turn { s with idleFired := true } _) (.scratch rfl))

theorem advance (s : Session F) (now : Int) : Gives (R s) (s.advance env now) := by
  unfold Session.advance
  dsimp only
  refine P.follow (P.before (.scratch rfl) (P.drain { s with lastClientEventID := "" } now)) ?_
  unfold fireIdle
  split
  · exact P.comes (.scratch rfl) (P.idleTimeout _)
  · exact P.refl _

/-! ## Client events -/

theorem cancelResponse (s : Session F) (ce : ClientEvent) :
    Gives (R s) (s.cancelResponse env ce) := by
  unfold Session.cancelResponse
  dsimp only
  split
  · exact P.weaken (P.error (.refl s) _)
  next inf hinf =>
    have hcancel := P.cancel hinf .clientCancelled
    split
    · split
      · exact P.follow hcancel (P.comes (.scratch rfl) (P.respond _))
      · exact hcancel
    · exact P.weaken (P.error (.refl s) _)

/-- Every client event is handled in passages. -/
theorem handling : Handling env U R := by
  refine ⟨P.trans, P.weaken, ?_, fun ha => P.before ha.toAside, ?_, ?_, ?_, ?_, P.truncate⟩
  · exact fun ha hout => P.aside ha.toAside fun e he => isRemark_of_isReply (hout e he)
  · exact fun v' startMs ms _ _ => P.before (.scratch rfl) (P.vadStart _ v' startMs ms)
  · intro s v _ _ _
    refine P.weaken (vadEndOfTurn_of (fun s => P.error (.refl s)) P.commit P.trans ?_ ?_ ?_ P.autoRespond s v)
    · exact fun s ms id => P.aside (.scratch rfl) (by simp [isRemark])
    · exact fun s => P.aside (.scratch rfl) (by simp)
    · exact fun s => P.aside (vadReset_aside s) (by simp)
  · exact fun s => P.weaken (P.commit s)
  · intro s
    refine P.weaken (P.aside ?_ (by simp [clearBuffer, isRemark]))
    exact Aside.trans (.scratch rfl) (vadReset_aside _)

end

end Passage

end Session

end MockAgents.Realtime
