import MockAgents.Realtime.Proofs.Frames
/-!
# How queued events go out

A queued event is emitted by `Tick`, closed out by a cancellation or cut by a truncation.
Said once for all three: what goes out is the event itself with its item placed and its
texts cut, and the session changes only where items and the voice lock are kept.
-/

namespace MockAgents.Realtime

open List

variable {F : Type}

/-- `e` is the queued event `ev` as it goes out. -/
inductive Event.Sent : Event F ItemRef → Event F ItemRef → Prop
  | same (ev : Event F ItemRef) : Sent ev ev
  | added (prev prev' : Option String) (item : ItemRef) :
      Sent (.itemAdded prev item) (.itemAdded prev' item)
  | done (prev prev' : Option String) (item : ItemRef) :
      Sent (.itemDone prev item) (.itemDone prev' item)
  | billed (r : ResponseObject ItemRef) (usage : Option Usage) :
      Sent (.responseDone r) (.responseDone { r with usage := usage })
  | cut (respID : String) (i : Nat) (lev lev' : LadderEvent ItemRef)
      (h : ∀ id delta, lev' ≠ .outputAudioDelta id delta) :
      Sent (.ladder respID i lev) (.ladder respID i lev')

/-- Neither audio nor the end of a response. -/
def Event.isClosing : Event F ItemRef → Bool
  | .ladder _ _ (.outputAudioDelta ..) | .responseDone _ => false
  | _ => true

/-- Only what a cancellation reports was recorded. -/
structure Inflight.Tracks (inf inf' : Inflight F) : Prop where
  respID : inf'.respID = inf.respID
  rc : inf'.rc = inf.rc
  queue : inf'.queue = inf.queue
  nextAt : inf'.nextAt = inf.nextAt
  deleted : inf'.deleted = inf.deleted

theorem Inflight.Tracks.refl (inf : Inflight F) : inf.Tracks inf := ⟨rfl, rfl, rfl, rfl, rfl⟩

theorem Inflight.Tracks.trans {i₁ i₂ i₃ : Inflight F} (h₁ : i₁.Tracks i₂) (h₂ : i₂.Tracks i₃) :
    i₁.Tracks i₃ :=
  ⟨h₂.respID.trans h₁.respID, h₂.rc.trans h₁.rc, h₂.queue.trans h₁.queue, h₂.nextAt.trans h₁.nextAt,
    h₂.deleted.trans h₁.deleted⟩

theorem Inflight.tracks_track (inf : Inflight F) (lev : LadderEvent ItemRef) :
    inf.Tracks (inf.track lev) ∧ (inf.track lev).chainPrev = inf.chainPrev := by
  unfold track addEmitted
  split <;> first
    | exact ⟨⟨rfl, rfl, rfl, rfl, rfl⟩, rfl⟩
    | (split <;> exact ⟨⟨rfl, rfl, rfl, rfl, rfl⟩, rfl⟩)

namespace Session

/-- What the emission of a queued event and its close-out can do. -/
inductive Emission (s : Session F) (inf : Inflight F) :
    Event F ItemRef → Session F → Inflight F → List (Event F ItemRef) → Prop
  | added (prev : Option String) (item : ItemRef) :
      Emission s inf (.itemAdded prev item) (s.joinEmittedItem item) (s.rewriteChainPrev inf item)
        [.itemAdded s.previousItemID item]
  | suppressed (prev : Option String) (item : ItemRef) (h : inf.deleted item.id = true) :
      Emission s inf (.itemDone prev item) s inf []
  | done (prev : Option String) (item : ItemRef) (h : inf.deleted item.id = false) :
      Emission s inf (.itemDone prev item) (s.rememberItem item) inf
        [.itemDone ((inf.chainPrev item.id).getD prev) item]
  | heard (respID : String) (i : Nat) (id : String) (delta : Lib.Bytes) :
      Emission s inf (.ladder respID i (.outputAudioDelta id delta))
        { s with respondedWithAudio := true } inf [.ladder respID i (.outputAudioDelta id delta)]
  | carried (respID : String) (i : Nat) (lev : LadderEvent ItemRef) (heap : List ItemData)
      {inf' : Inflight F} {out : List (Event F ItemRef)} (htracks : inf.Tracks inf')
      (hchain : inf'.chainPrev = inf.chainPrev)
      (hout : ∀ e ∈ out, ∃ lev', e = .ladder respID i lev' ∧
        ∀ id delta, lev' ≠ .outputAudioDelta id delta) :
      Emission s inf (.ladder respID i lev) { s with heap := heap } inf' out
  | other {ev : Event F ItemRef} {out : List (Event F ItemRef)} (hladder : ∀ r i l, ev ≠ .ladder r i l)
      (hadded : ∀ p i, ev ≠ .itemAdded p i) (hdone : ∀ p i, ev ≠ .itemDone p i)
      (hout : ∀ e ∈ out, e = ev) : Emission s inf ev s inf out

variable {s s' : Session F} {inf inf' : Inflight F} {ev : Event F ItemRef}
variable {out : Events F}

theorem emitQueued_cases (s : Session F) (inf : Inflight F) (ev : Event F ItemRef) :
    Emission s inf ev (s.emitQueued inf ev).1 (s.emitQueued inf ev).2.1 (s.emitQueued inf ev).2.2 := by
  unfold emitQueued
  split
  · exact .added _ _
  · split
    · exact .suppressed _ _ ‹_›
    · exact .done _ _ ((Bool.not_eq_true _).mp ‹_›)
  · exact .heard _ _ _ _
  next respID i lev hnot =>
    refine .carried respID i lev s.heap (inf.tracks_track lev).1 (inf.tracks_track lev).2 ?_
    intro e he
    exact ⟨lev, by simpa using he, fun id delta h => hnot id delta (by rw [h])⟩
  next hadded hdone _ hladder =>
    exact .other hladder hadded hdone (by simp)

theorem closeOut_cases (h : s.closeOut inf ev = some (s', inf', out)) :
    Emission s inf ev s' inf' out ∧ ∀ e ∈ out, e.isClosing = true := by
  unfold closeOut at h
  split at h
  · obtain ⟨rfl, rfl, rfl⟩ := h
    exact ⟨.other (by simp) (by simp) (by simp) (by simp), by simp⟩
  · cases h
  · obtain ⟨rfl, rfl, rfl⟩ := h
    exact ⟨.added _ _, by simp [Event.isClosing]⟩
  · split at h <;> obtain ⟨rfl, rfl, rfl⟩ := h
    · exact ⟨.suppressed _ _ ‹_›, by simp⟩
    · exact ⟨.done _ _ ((Bool.not_eq_true _).mp ‹_›), by simp [Event.isClosing]⟩
  next respID i lev =>
    -- a closed part goes out with the text emitted so far, if it was opened
    have hclosed : ∀ (b : Bool) (lev' : LadderEvent ItemRef), (∀ id delta, lev' ≠ .outputAudioDelta id delta) →
        ∀ e ∈ (if b = true then [Event.ladder respID i lev'] else [] : Events F),
          ∃ lev', e = .ladder respID i lev' ∧ ∀ id delta, lev' ≠ .outputAudioDelta id delta := by
      intro b lev' hlev e he
      cases b
      · simp at he
      · exact ⟨lev', by simpa using he, hlev⟩
    have hclosing : ∀ out : Events F, (∀ e ∈ out, ∃ lev', e = .ladder respID i lev' ∧
        ∀ id delta, lev' ≠ .outputAudioDelta id delta) → ∀ e ∈ out, e.isClosing = true := by
      intro out hout e he
      obtain ⟨lev', rfl, hlev⟩ := hout e he
      cases lev' <;> first
        | rfl
        | exact absurd rfl (hlev _ _)
    cases lev <;> simp only [Option.some.injEq, Prod.mk.injEq, reduceCtorEq] at h
    case outputItemDone item =>
      obtain ⟨rfl, rfl, rfl⟩ := h
      exact ⟨.carried _ _ _ _ ⟨rfl, rfl, rfl, rfl, rfl⟩ rfl (by simp), by simp [Event.isClosing]⟩
    all_goals
      obtain ⟨rfl, rfl, rfl⟩ := h
      refine ⟨.carried _ _ _ s.heap (.refl inf) rfl ?_, ?_⟩
      · first
          | exact hclosed _ _ (by simp)
          | simp
      · first
          | exact hclosing _ (hclosed _ _ (by simp))
          | simp
  next _ hdone hadded hitem hladder =>
    obtain ⟨rfl, rfl, rfl⟩ := h
    refine ⟨.other hladder hadded hitem (by simp), ?_⟩
    intro e he
    obtain rfl : e = _ := by simpa using he
    cases e <;> first
      | rfl
      | exact absurd rfl (hladder _ _ _)
      | exact absurd rfl (hdone _)

theorem Emission.sent (h : Emission s inf ev s' inf' out) : ∀ e ∈ out, ev.Sent e := by
  cases h with
  | added prev item => simpa using .added ..
  | suppressed => simp
  | done prev item => simpa using .done ..
  | heard => simpa using .same _
  | carried respID i lev heap _ _ hout =>
    intro e he
    obtain ⟨lev', rfl, hlev⟩ := hout e he
    exact .cut respID i lev lev' hlev
  | other _ _ _ hout =>
    intro e he
    exact hout e he ▸ .same _

theorem Emission.tracks (h : Emission s inf ev s' inf' out) : inf.Tracks inf' := by
  cases h with
  | added prev item =>
    unfold rewriteChainPrev
    split <;> exact ⟨rfl, rfl, rfl, rfl, rfl⟩
  | carried _ _ _ _ htracks => exact htracks
  | suppressed | done | heard | other => exact .refl inf

/-- The lock of the voice falls with the audio that goes out. -/
theorem Emission.shelved (h : Emission s inf ev s' inf' out) :
    s.Shelved s' ∨ s' = { s with respondedWithAudio := true } ∧ ∃ e ∈ out, e.isClosing = false := by
  cases h with
  | added prev item => exact .inl (reindexed_joinEmittedItem s item).shelved
  | done prev item => exact .inl (reindexed_rememberItem s item).shelved
  | heard => exact .inr ⟨rfl, by simp [Event.isClosing]⟩
  | carried => exact .inl ⟨_, _, _, _, _, rfl⟩
  | suppressed | other => exact .inl (.refl s)

theorem Emission.lock (h : Emission s inf ev s' inf' out) {respID id : String} {i : Nat} {delta : Lib.Bytes}
    (he : .ladder respID i (.outputAudioDelta id delta) ∈ out) : s'.respondedWithAudio = true := by
  cases h with
  | heard => rfl
  | carried _ _ _ _ _ _ hout =>
    obtain ⟨lev', heq, hlev⟩ := hout _ he
    obtain ⟨-, -, rfl⟩ : _ ∧ _ ∧ LadderEvent.outputAudioDelta id delta = lev' := by simpa using heq
    exact absurd rfl (hlev id delta)
  | other hladder _ _ hout => exact absurd (hout _ he).symm (hladder _ _ _)
  | added | suppressed | done => simp at he

theorem emitQueued_shelved (s : Session F) (inf : Inflight F) (ev : Event F ItemRef) :
    ∃ b, Shelved { s with respondedWithAudio := b } (s.emitQueued inf ev).1 := by
  rcases (emitQueued_cases s inf ev).shelved with h | ⟨h, -⟩
  · exact ⟨s.respondedWithAudio, h⟩
  · exact ⟨true, h ▸ .refl _⟩

/-! ## Cancellation -/

/-- What a cancellation sends comes from the queue, up to the audio and the end of the response. -/
theorem drainCancelled_cases (queue : Events F) (s : Session F) (inf : Inflight F) :
    s.Shelved (drainCancelled queue s inf).1 ∧ inf.Tracks (drainCancelled queue s inf).2.1 ∧
      ∀ e ∈ (drainCancelled queue s inf).2.2, e.isClosing = true ∧ ∃ ev ∈ queue, ev.Sent e := by
  induction queue generalizing s inf with
  | nil => exact ⟨.refl s, .refl inf, by simp [drainCancelled]⟩
  | cons ev queue ih =>
    rw [drainCancelled]
    split
    · exact ⟨.refl s, .refl inf, by simp⟩
    next s' inf' out hc =>
      obtain ⟨hemission, hclosing⟩ := closeOut_cases hc
      have hshelved : s.Shelved s' := hemission.shelved.resolve_right fun ⟨_, e, he, hopen⟩ =>
        absurd (hclosing e he) (by simp [hopen])
      obtain ⟨hs, hi, hout⟩ := ih s' inf'
      refine ⟨hshelved.trans hs, hemission.tracks.trans hi, forall_mem_append.mpr ⟨?_, ?_⟩⟩
      · exact fun e he => ⟨hclosing e he, ev, mem_cons_self, hemission.sent e he⟩
      · intro e he
        obtain ⟨hcl, x, hx, hsent⟩ := hout e he
        exact ⟨hcl, x, mem_cons_of_mem ev hx, hsent⟩

/-- The envelope of a response carries its id and its voice, and the conversation it is in. -/
def Enveloped (respID : String) (rc : ResponseCtx) (r : ResponseObject ItemRef) : Prop :=
  r.id = respID ∧ r.voice = rc.voice ∧ r.conversationID.isSome = !rc.outOfBand

theorem responseObject_enveloped (s : Session F) (respID : String) (status : ResponseStatus)
    (output : List ItemRef) (rc : ResponseCtx) (details : Option StatusDetails) (usage : Option Usage) :
    Enveloped respID rc { s.responseObject respID status output rc with
      statusDetails := details, usage := usage } := by
  refine ⟨rfl, rfl, ?_⟩
  cases h : rc.outOfBand <;> simp [responseObject, h]

theorem cancelInflight_cases (s : Session F) (inf : Inflight F) (reason : CancelReason) :
    ∃ out r, (s.cancelInflight inf reason).2 = out ++ [.responseDone r] ∧
      Enveloped inf.respID inf.rc r ∧ (∀ e ∈ out, e.isClosing = true ∧ ∃ ev ∈ inf.queue, ev.Sent e) ∧
      Shelved { s with
        inflight := none
        pendingResponse := if reason = .turnDetected then false else s.pendingResponse
        idleAt := 0 } (s.cancelInflight inf reason).1 := by
  unfold cancelInflight
  dsimp only
  obtain ⟨hs, hi, hout⟩ := drainCancelled_cases inf.queue { s with
    inflight := none
    pendingResponse := if reason = .turnDetected then false else s.pendingResponse
    idleAt := 0 } inf
  refine ⟨_, _, rfl, ?_, hout, hs.trans ⟨_, _, _, _, _, rfl⟩⟩
  rw [← hi.respID, ← hi.rc]
  exact responseObject_enveloped ..

/-! ## Truncation -/

/-- The queue with some of its deltas dropped and the rest as it is to go out. -/
inductive Thinned : List (Event F ItemRef) → List (Event F ItemRef) → Prop
  | nil : Thinned [] []
  | keep {ev e : Event F ItemRef} {queue queue' : List (Event F ItemRef)} (h : ev.Sent e)
      (rest : Thinned queue queue') : Thinned (ev :: queue) (e :: queue')
  | drop {ev : Event F ItemRef} {queue queue' : List (Event F ItemRef)}
      (h : (∃ r i l, ev = .ladder r i l) ∨ ∃ id delta lp, ev = .transcriptionDelta id delta lp)
      (rest : Thinned queue queue') : Thinned (ev :: queue) queue'

theorem Thinned.mem {queue queue' : Events F} (h : Thinned queue queue') :
    ∀ e ∈ queue', ∃ ev ∈ queue, ev.Sent e := by
  induction h with
  | nil => simp
  | keep hsent _ ih =>
    refine forall_mem_cons.mpr ⟨⟨_, mem_cons_self, hsent⟩, fun e he => ?_⟩
    obtain ⟨x, hx, hs⟩ := ih e he
    exact ⟨x, mem_cons_of_mem _ hx, hs⟩
  | drop _ _ ih =>
    intro e he
    obtain ⟨x, hx, hs⟩ := ih e he
    exact ⟨x, mem_cons_of_mem _ hx, hs⟩

theorem Thinned.rebill {queue queue' : Events F} (h : Thinned queue queue')
    (emitted : Lib.Bytes) (audio : Bool) : Thinned queue (queue'.map (rebill emitted audio)) := by
  induction h with
  | nil => exact .nil
  | @keep ev _ _ _ hsent _ ih =>
    refine .keep ?_ ih
    cases hsent with
    | same =>
      cases ev with
      | responseDone r => exact .billed r _
      | _ => exact .same _
    | added prev prev' item => exact .added prev prev' item
    | done prev prev' item => exact .done prev prev' item
    | billed r usage => exact .billed r _
    | cut respID i lev lev' hlev => exact .cut respID i lev lev' hlev
  | drop hdrop _ ih => exact .drop hdrop ih

theorem truncateEvent_thinned (id : String) (emitted : Lib.Bytes) (s : Session F)
    (ev : Event F ItemRef) {queue queue' : Events F} (h : Thinned queue queue') :
    Thinned (ev :: queue) ((truncateEvent id emitted s ev).2 ++ queue') := by
  unfold truncateEvent
  split
  · split
    · exact .keep (.same _) h
    · split
      · exact .drop (.inl ⟨_, _, _, rfl⟩) h
      · split
        · exact .keep (.cut _ _ _ _ (by simp)) h
        · exact .keep (.cut _ _ _ _ (by simp)) h
        · exact .keep (.cut _ _ _ _ (by simp)) h
        · exact .keep (.same _) h
        · exact .keep (.same _) h
  · split <;> exact .keep (.same _) h
  · split
    · exact .keep (.same _) h
    · exact .drop (.inr ⟨_, _, _, rfl⟩) h
  · exact .keep (.same _) h

theorem truncateEvent_heap (id : String) (emitted : Lib.Bytes) (s : Session F) (ev : Event F ItemRef) :
    ∃ heap, (truncateEvent id emitted s ev).1 = { s with heap := heap } := by
  unfold truncateEvent
  split
  · split
    · exact ⟨s.heap, rfl⟩
    · split
      · exact ⟨s.heap, rfl⟩
      · split <;> exact ⟨_, rfl⟩
  · split <;> exact ⟨_, rfl⟩
  · exact ⟨s.heap, rfl⟩
  · exact ⟨s.heap, rfl⟩

theorem truncateQueue_cases (id : String) (emitted : Lib.Bytes) (queue : Events F)
    (s : Session F) : ∃ heap queue', Thinned queue queue' ∧
      truncateQueue id emitted queue s = ({ s with heap := heap }, queue') := by
  induction queue generalizing s with
  | nil => exact ⟨s.heap, [], .nil, rfl⟩
  | cons ev queue ih =>
    obtain ⟨heap, heq⟩ := truncateEvent_heap id emitted s ev
    obtain ⟨heap', queue', hrest, heq'⟩ := ih (truncateEvent id emitted s ev).1
    refine ⟨heap', _, truncateEvent_thinned id emitted s ev hrest, ?_⟩
    rw [truncateQueue]
    dsimp only
    rw [heq', heq]

/-- A truncation thins the queue of the response in flight and rewrites what it will remember. -/
theorem truncateInflightItem_cases (s : Session F) (id : String) :
    s.truncateInflightItem id = s ∨ ∃ inf heap queue onDone, s.inflight = some inf ∧
      Thinned inf.queue queue ∧ s.truncateInflightItem id = { s with
        heap := heap, inflight := some { inf with queue := queue, onDone := onDone } } := by
  unfold truncateInflightItem
  split
  · exact .inl rfl
  next inf hinf =>
    obtain ⟨heap, queue, hthin, heq⟩ := truncateQueue_cases id (inf.emittedText id) inf.queue s
    dsimp only
    rw [heq]
    exact .inr ⟨inf, heap, _, _, hinf, hthin.rebill _ _, rfl⟩

end Session

end MockAgents.Realtime
