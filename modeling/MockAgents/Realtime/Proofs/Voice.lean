import MockAgents.Realtime.Exact
import MockAgents.Realtime.Proofs.Idle
/-!
# The voice lock

A response fixes its voice when it is built, the lock falls when its audio is heard.
The responses of a run that were heard carry one voice as long as neither a request
nor an update picks another voice in between.
-/

namespace MockAgents.Realtime

variable {F ι κ : Type}

/-- What an event says about the voice of a response of the conversation. -/
inductive VoiceMark where
  | envelope (id voice : String)
  | audio (id : String)
deriving DecidableEq, Repr

def VoiceMark.id : VoiceMark → String
  | .envelope id _ | .audio id => id

def Event.voiceMark : Event F ι → Option VoiceMark
  | .responseCreated r | .responseDone r =>
    if r.conversationID.isSome then some (.envelope r.id r.voice) else none
  | .ladder id _ (.outputAudioDelta ..) => some (.audio id)
  | _ => none

theorem Event.voiceMark_map (f : ι → κ) (ev : Event F ι) : (ev.map f).voiceMark = ev.voiceMark := by
  cases ev with
  | ladder id i lev => cases lev <;> rfl
  | _ => rfl

theorem Event.eq_audio_of_voiceMark {ev : Event F ι} {id : String} (h : ev.voiceMark = some (.audio id)) :
    ∃ i item delta, ev = .ladder id i (.outputAudioDelta item delta) := by
  have henvelope : ∀ r : ResponseObject ι, (if r.conversationID.isSome then
      some (VoiceMark.envelope r.id r.voice) else none) ≠ some (.audio id) := by
    intro r
    split <;> simp
  cases ev with
  | responseCreated r => exact absurd h (henvelope r)
  | responseDone r => exact absurd h (henvelope r)
  | ladder respID i lev =>
    cases lev <;> simp only [voiceMark, reduceCtorEq, Option.some.injEq, VoiceMark.audio.injEq] at h
    exact ⟨i, _, _, by rw [h]⟩
  | _ => exact absurd h (by simp [voiceMark])

def voiceMarks (out : List (Event F ι)) : List VoiceMark := out.filterMap Event.voiceMark

@[simp] theorem voiceMarks_nil : voiceMarks ([] : List (Event F ι)) = [] := rfl

@[simp] theorem voiceMarks_append (out more : List (Event F ι)) :
    voiceMarks (out ++ more) = voiceMarks out ++ voiceMarks more := List.filterMap_append

theorem voiceMarks_cons (ev : Event F ι) (out : List (Event F ι)) :
    voiceMarks (ev :: out) = ev.voiceMark.toList ++ voiceMarks out := by
  cases h : ev.voiceMark <;> simp [voiceMarks, h]

theorem mem_voiceMarks {out : List (Event F ι)} {m : VoiceMark} :
    m ∈ voiceMarks out ↔ ∃ ev ∈ out, ev.voiceMark = some m := by
  simp [voiceMarks]

theorem voiceMarks_of_silent {out : Events F} (h : ∀ e ∈ out, e.mark = .silent) :
    voiceMarks out = [] := by
  refine List.filterMap_eq_nil_iff.mpr fun e he => ?_
  have hsilent := h e he
  cases e <;> first
    | rfl
    | simp [Event.mark] at hsilent

theorem Event.Sent.voiceMark {ev e : Event F ItemRef} (h : ev.Sent e) {m : VoiceMark}
    (hm : e.voiceMark = some m) : ev.voiceMark = some m := by
  cases h with
  | cut respID i lev lev' hlev =>
    cases lev' <;> first
      | exact absurd rfl (hlev _ _)
      | simp [Event.voiceMark] at hm
  | same | added | done | billed => exact hm

theorem voiceMarks_of_sent {queue out : Events F}
    (h : ∀ e ∈ out, ∃ ev ∈ queue, ev.Sent e) : ∀ m ∈ voiceMarks out, m ∈ voiceMarks queue := by
  intro m hm
  obtain ⟨e, he, hmark⟩ := mem_voiceMarks.mp hm
  obtain ⟨ev, hev, hsent⟩ := h e he
  exact mem_voiceMarks.mpr ⟨ev, hev, hsent.voiceMark hmark⟩

namespace Session

/-! ## The invariant -/

/-- The marks of a session so far: the responses that were heard carry the voice of
the session, and the response in flight has one voice. -/
structure Voiced (s : Session F) (M : List VoiceMark) : Prop where
  agreed : ∀ id v, .envelope id v ∈ M → .audio id ∈ M →
    v = s.effectiveVoice ∧ s.respondedWithAudio = true
  minted : ∀ m ∈ M, s.Minted m.id
  opened : ∀ inf, s.inflight = some inf → .envelope inf.respID inf.rc.voice ∈ M
  current : ∀ inf, s.inflight = some inf → ∀ v, .envelope inf.respID v ∈ M → v = inf.rc.voice
  queue : ∀ inf, s.inflight = some inf → ∀ m ∈ voiceMarks inf.queue,
    (m = .audio inf.respID ∧ inf.rc.voice = s.effectiveVoice) ∨ m = .envelope inf.respID inf.rc.voice

def Speaks (s : Session F) (out : List (Event F ItemRef)) (s' : Session F) : Prop :=
  ∀ M, s.Voiced M → s'.Voiced (M ++ voiceMarks out)

variable {s₁ s₂ s₃ s s' : Session F} {out : Events F} {inf : Inflight F}
variable {respID : String} (env : Env F) {ce : ClientEvent} {raw : Raw}
variable {rc : ResponseCtx} {ev : Event F ItemRef} {plan : Plan} {s₀ : Session F}

theorem Speaks.trans {o₁ o₂ : Events F} (h₁ : Speaks s₁ o₁ s₂) (h₂ : Speaks s₂ o₂ s₃) :
    Speaks s₁ (o₁ ++ o₂) s₃ := by
  intro M hM
  have h := h₂ _ (h₁ M hM)
  rwa [List.append_assoc, ← voiceMarks_append] at h

theorem Speaks.before (h₁ : Speaks s₁ [] s₂) (h₂ : Speaks s₂ out s₃) :
    Speaks s₁ out s₃ := h₁.trans h₂

/-- The step is beside the responses. -/
structure Beside (s s' : Session F) : Prop where
  id : s'.id = s.id
  counter : s.counter ≤ s'.counter
  voice : s'.cfg.voice = s.cfg.voice
  responded : s'.respondedWithAudio = s.respondedWithAudio
  inflight : s'.inflight = s.inflight

theorem Beside.refl (s : Session F) : s.Beside s := ⟨rfl, le_rfl, rfl, rfl, rfl⟩

theorem Beside.trans (h₁ : s₁.Beside s₂) (h₂ : s₂.Beside s₃) : s₁.Beside s₃ :=
  ⟨h₂.id.trans h₁.id, h₁.counter.trans h₂.counter, h₂.voice.trans h₁.voice,
    h₂.responded.trans h₁.responded, h₂.inflight.trans h₁.inflight⟩

theorem Beside.effectiveVoice (h : s.Beside s') : s'.effectiveVoice = s.effectiveVoice := by
  rw [Session.effectiveVoice, Session.effectiveVoice, h.voice]

theorem Apart.beside (h : s.Apart s') : s.Beside s' :=
  ⟨h.id, h.counter, by rw [h.cfg], h.responded, h.inflight⟩

theorem Extends.beside (h : s.Extends s') : s.Beside s' := h.aside.apart.beside

theorem Reindexed.beside (h : s.Reindexed s') : s.Beside s' := h.shelved.apart.beside

theorem Aside.beside (h : s.Aside s') : s.Beside s' := h.apart.beside

/-- Only the configuration changes: a voice that was heard, or is queued to be, stays. -/
theorem Speaks.reconfigured (hid : s'.id = s.id) (hc : s.counter ≤ s'.counter)
    (hresp : s'.respondedWithAudio = s.respondedWithAudio) (hinf : s'.inflight = s.inflight)
    (hout : voiceMarks out = [])
    (hvoice : s.respondedWithAudio = true ∨ (∃ id, .audio id ∈ voiceMarks s.queue) →
      s'.effectiveVoice = s.effectiveVoice) : Speaks s out s' := by
  intro M hM
  rw [hout, List.append_nil]
  refine ⟨?_, fun m hm => (hM.minted m hm).mono hid hc, ?_, ?_, ?_⟩
  · intro id v hv ha
    obtain ⟨heq, hr⟩ := hM.agreed id v hv ha
    rw [hresp, hvoice (.inl hr)]
    exact ⟨heq, hr⟩
  · rw [hinf]
    exact hM.opened
  · rw [hinf]
    exact hM.current
  · intro inf h m hm
    rw [hinf] at h
    rcases hM.queue inf h m hm with ⟨rfl, heq⟩ | heq
    · have hqueued : .audio inf.respID ∈ voiceMarks s.queue := by rwa [queue, h]
      exact .inl ⟨rfl, heq.trans (hvoice (.inr ⟨_, hqueued⟩)).symm⟩
    · exact .inr heq

theorem Beside.speaks (h : s.Beside s') (hout : voiceMarks out = []) : Speaks s out s' :=
  .reconfigured h.id h.counter h.responded h.inflight hout fun _ => h.effectiveVoice

theorem Speaks.refl (s : Session F) : Speaks s [] s := (Beside.refl s).speaks rfl

theorem Speaks.after (h : Speaks s₁ out s₂) (hb : s₂.Beside s₃) : Speaks s₁ out s₃ := by
  have hquiet : Speaks s₂ [] s₃ := hb.speaks rfl
  have := h.trans hquiet
  rwa [List.append_nil] at this

theorem Beside.before (hb : s₁.Beside s₂) (h : Speaks s₂ out s₃) : Speaks s₁ out s₃ :=
  Speaks.before (hb.speaks rfl) h

/-- The step keeps the voice, the lock once set and the ids drawn. -/
structure Carries (s s' : Session F) : Prop where
  id : s'.id = s.id
  counter : s.counter ≤ s'.counter
  voice : s'.effectiveVoice = s.effectiveVoice
  responded : s.respondedWithAudio = true → s'.respondedWithAudio = true

theorem Carries.trans (h₁ : s₁.Carries s₂) (h₂ : s₂.Carries s₃) : s₁.Carries s₃ :=
  ⟨h₂.id.trans h₁.id, h₁.counter.trans h₂.counter, h₂.voice.trans h₁.voice,
    fun h => h₂.responded (h₁.responded h)⟩

theorem Beside.carries (h : s.Beside s') : s.Carries s' :=
  ⟨h.id, h.counter, h.effectiveVoice, fun hr => h.responded.trans hr⟩

/-- A mark of a response that speaks in the given voice, if it is heard the session's. -/
def VoiceMark.Of (s : Session F) (respID voice : String) (m : VoiceMark) : Prop :=
  (m = .audio respID ∧ voice = s.effectiveVoice) ∨ m = .envelope respID voice

/-- The new marks are those of one response, which has one voice and, once it is heard, that of
the session. -/
theorem Voiced.extend {M N : List VoiceMark} {v : String} (hM : s.Voiced M) (hs : s.Carries s')
    (hminted : s'.Minted respID) (hN : ∀ m ∈ N, m = .envelope respID v ∨ m = .audio respID)
    (hone : ∀ w, .envelope respID w ∈ M → w = v)
    (hheard : ∀ w, .envelope respID w ∈ M ++ N → .audio respID ∈ M ++ N →
      v = s.effectiveVoice ∧ s'.respondedWithAudio = true)
    (hnext : ∀ inf, s'.inflight = some inf →
      (inf.respID = respID ∧ inf.rc.voice = v ∧ .envelope respID v ∈ M ++ N ∧
        ∀ m ∈ voiceMarks inf.queue, VoiceMark.Of s respID v m) ∨
      (s.inflight = some inf ∧ inf.respID ≠ respID)) : s'.Voiced (M ++ N) := by
  have hold : ∀ m : VoiceMark, m.id ≠ respID → m ∈ M ++ N → m ∈ M := by
    intro m hm hmem
    refine (List.mem_append.mp hmem).resolve_right fun h => hm ?_
    rcases hN m h with rfl | rfl <;> rfl
  have hall : ∀ w, .envelope respID w ∈ M ++ N → w = v := by
    intro w hw
    rcases List.mem_append.mp hw with h | h
    · exact hone w h
    · simpa using hN _ h
  refine ⟨?_, ?_, ?_, ?_, ?_⟩
  · intro id w hw ha
    rw [hs.voice]
    by_cases hr : id = respID
    · subst hr
      rw [hall w hw]
      exact hheard w hw ha
    · exact (hM.agreed id w (hold _ hr hw) (hold _ hr ha)).imp_right hs.responded
  · intro m hm
    by_cases hr : m.id = respID
    · exact hr ▸ hminted
    · exact (hM.minted m (hold m hr hm)).mono hs.id hs.counter
  · intro inf h
    rcases hnext inf h with ⟨rfl, rfl, hopen, -⟩ | ⟨h, -⟩
    · exact hopen
    · exact List.mem_append_left _ (hM.opened inf h)
  · intro inf h w hw
    rcases hnext inf h with ⟨rfl, rfl, -⟩ | ⟨h, hne⟩
    · exact hall w hw
    · exact hM.current inf h w (hold _ hne hw)
  · intro inf h
    rw [hs.voice]
    rcases hnext inf h with ⟨rfl, rfl, -, hqueue⟩ | ⟨h, -⟩
    · exact hqueue
    · exact hM.queue inf h

/-- The response in flight goes on: what is emitted comes from its queue or is its
envelope, and what is left of the queue was there before. -/
theorem Speaks.advance (hinf : s.inflight = some inf) (hs : s.Carries s')
    (hout : ∀ m ∈ voiceMarks out, m ∈ voiceMarks inf.queue ∨ m = .envelope inf.respID inf.rc.voice)
    (haudio : ∀ id, .audio id ∈ voiceMarks out → s'.respondedWithAudio = true)
    (hnext : ∀ inf', s'.inflight = some inf' → inf'.respID = inf.respID ∧ inf'.rc = inf.rc ∧
      ∀ m ∈ voiceMarks inf'.queue, m ∈ voiceMarks inf.queue) : Speaks s out s' := by
  intro M hM
  have hopen := hM.opened inf hinf
  have hown : ∀ m ∈ voiceMarks out, VoiceMark.Of s inf.respID inf.rc.voice m := fun m hm =>
    (hout m hm).elim (hM.queue inf hinf m) .inr
  refine hM.extend hs ((hM.minted _ hopen).mono hs.id hs.counter)
    (fun m hm => (hown m hm).symm.imp_right And.left) (hM.current inf hinf) ?_ ?_
  · intro w _ ha
    rcases List.mem_append.mp ha with ha | ha
    · exact (hM.agreed _ _ hopen ha).imp_right hs.responded
    · rcases hown _ ha with ⟨_, heq⟩ | h
      · exact ⟨heq, haudio _ ha⟩
      · cases h
  · intro inf' hinf'
    obtain ⟨hr, hrc, hq⟩ := hnext inf' hinf'
    exact .inl ⟨hr, by rw [hrc], List.mem_append_left _ hopen,
      fun m hm => hM.queue inf hinf m (hq m hm)⟩

theorem Speaks.burst (rc : ResponseCtx) (hs : s.Carries s') (hinf : s'.inflight = s.inflight)
    (hnew : ∀ id, s.Minted id → respID ≠ id) (hminted : s'.Minted respID)
    (hout : ∀ m ∈ voiceMarks out, (m = .envelope respID rc.voice ∧ rc.outOfBand = false) ∨
      (m = .audio respID ∧ (rc.outOfBand = false →
        rc.voice = s.effectiveVoice ∧ s'.respondedWithAudio = true))) : Speaks s out s' := by
  intro M hM
  have hfresh : ∀ m ∈ M, m.id ≠ respID := fun m hm heq => hnew _ (hM.minted m hm) heq.symm
  refine hM.extend hs hminted (fun m hm => (hout m hm).imp And.left And.left)
    (fun w hw => absurd rfl (hfresh _ hw)) ?_ ?_
  · intro w hw ha
    have henv := (List.mem_append.mp hw).resolve_left fun h => hfresh _ h rfl
    have haud := (List.mem_append.mp ha).resolve_left fun h => hfresh _ h rfl
    obtain ⟨-, hoob⟩ := (hout _ henv).resolve_right (by simp)
    exact ((hout _ haud).resolve_left (by simp)).2 hoob
  · intro inf h
    rw [hinf] at h
    exact .inr ⟨h, hfresh _ (hM.opened inf h)⟩

theorem Speaks.opening (hinf : s'.inflight = some inf) (hs : s.Carries s')
    (hnew : ∀ id, s.Minted id → inf.respID ≠ id) (hminted : s'.Minted inf.respID)
    (hout : voiceMarks out = [.envelope inf.respID inf.rc.voice])
    (hqueue : ∀ m ∈ voiceMarks inf.queue, VoiceMark.Of s inf.respID inf.rc.voice m) :
    Speaks s out s' := by
  intro M hM
  have hfresh : ∀ m ∈ M, m.id ≠ inf.respID := fun m hm heq => hnew _ (hM.minted m hm) heq.symm
  rw [hout]
  refine hM.extend hs hminted (fun m hm => .inl (by simpa using hm))
    (fun w hw => absurd rfl (hfresh _ hw)) ?_ ?_
  · intro w _ ha
    exact absurd rfl (hfresh (.audio inf.respID) (by simpa using ha))
  · intro inf' hinf'
    obtain rfl : inf = inf' := by rwa [hinf, Option.some.injEq] at hinf'
    exact .inl ⟨rfl, rfl, by simp, hqueue⟩

/-! ## Creating a response -/

/-- The mark of an envelope. -/
def envelopeMarks (respID : String) (rc : ResponseCtx) : List VoiceMark :=
  if rc.outOfBand then [] else [.envelope respID rc.voice]

theorem mem_envelopeMarks {m : VoiceMark} :
    m ∈ envelopeMarks respID rc ↔ m = .envelope respID rc.voice ∧ rc.outOfBand = false := by
  unfold envelopeMarks
  cases rc.outOfBand <;> simp

theorem Enveloped.marks {r : ResponseObject ItemRef} (h : Enveloped respID rc r)
    (out : Events F) (hev : ev = .responseCreated r ∨ ev = .responseDone r) :
    voiceMarks (ev :: out) = envelopeMarks respID rc ++ voiceMarks out := by
  obtain ⟨hid, hvoice, hconv⟩ := h
  rw [voiceMarks_cons]
  rcases hev with rfl | rfl <;> simp only [Event.voiceMark, envelopeMarks, hconv, hid, hvoice] <;>
    cases rc.outOfBand <;> rfl

theorem buildLadder_voice {env : Env F} {m : VoiceMark}
    (h : m ∈ voiceMarks (s.buildLadder env respID plan).2.1) :
    m = .audio respID ∧ plan.emitMessage = true ∧ plan.rc.textOnly = false := by
  obtain ⟨e, he, hm⟩ := mem_voiceMarks.mp h
  cases onLadder_build env s plan he with
  | @carried i lev hheard =>
    cases lev <;> simp only [Event.voiceMark, reduceCtorEq, Option.some.injEq] at hm
    exact ⟨hm.symm, hheard _ _ rfl⟩
  | added | done => simp [Event.voiceMark] at hm

theorem finishBurst_voice (s : Session F) (plan : Plan) (items : List ItemRef) :
    Beside { s with
      respondedWithAudio :=
        s.respondedWithAudio || (!plan.rc.outOfBand && plan.emitMessage && !plan.rc.textOnly) }
      (s.finishBurst env plan items) := by
  unfold finishBurst
  split
  next hoob =>
    exact ⟨rfl, le_rfl, rfl, by simp [hoob], rfl⟩
  next hoob =>
    dsimp only
    refine Beside.trans (Beside.trans ?_ (reindexed_joinItems _ items).beside) (armIdleTimer_aside env _).beside
    have hmain : plan.rc.outOfBand = false := by simpa using hoob
    split
    next haudio =>
      simp only [Bool.and_eq_true] at haudio
      exact ⟨rfl, le_rfl, rfl, by simp [hmain, haudio.1, haudio.2], rfl⟩
    next haudio =>
      rw [Bool.not_eq_true] at haudio
      exact ⟨rfl, le_rfl, rfl, by simp [hmain, haudio], rfl⟩

theorem doneObject_voice (s : Session F) (respID : String) (plan : Plan) (items : List ItemRef) :
    voiceMarks ([.responseDone (s.doneObject respID plan items)] : Events F) =
      envelopeMarks respID plan.rc := by
  have henv : Enveloped respID plan.rc (s.doneObject respID plan items) :=
    responseObject_enveloped s respID _ items plan.rc _ _
  rw [henv.marks [] (.inr rfl), voiceMarks_nil, List.append_nil]

/-- A response speaks in the voice of the session if it is heard in the conversation. -/
def InVoice (s : Session F) (rc : ResponseCtx) : Prop :=
  rc.outOfBand = false → rc.textOnly = false → rc.voice = s.effectiveVoice

theorem emitResponse_speaks (hb : s₀.Beside s)
    (hnew : ∀ id, s₀.Minted id → respID ≠ id) (hmint : s.Minted respID) (hv : s₀.InVoice plan.rc) :
    Gives (Speaks s₀) (s.emitResponse env respID plan) := by
  have hgrow := (extends_buildLadder env s respID plan).beside
  have hb' := hb.trans hgrow
  have hmint' := hmint.mono hgrow.id hgrow.counter
  set s₁ := (s.buildLadder env respID plan).1 with hs₁
  set items := (s.buildLadder env respID plan).2.2 with hitems
  have hopen : ∀ out, voiceMarks (s.openingEvents respID plan ++ out) =
      envelopeMarks respID plan.rc ++ voiceMarks out := fun out =>
    (responseObject_enveloped s respID .inProgress [] plan.rc none none).marks _ (.inl rfl)
  have hdone := doneObject_voice s₁ respID plan items
  unfold emitResponse
  dsimp only
  split
  next hpaced =>
    have hmain : plan.rc.outOfBand = false := by
      simp only [Bool.and_eq_true, Bool.not_eq_true'] at hpaced
      exact hpaced.2
    refine Speaks.opening rfl (hb'.carries.trans ⟨rfl, le_rfl, rfl, fun hr => hr⟩) hnew hmint' ?_ ?_
    · have h := hopen []
      rw [envelopeMarks, hmain] at h
      exact h
    · intro m hm
      have hm' : m ∈ voiceMarks ((s.buildLadder env respID plan).2.1 ++
          [.responseDone (s₁.doneObject respID plan items)]) := hm
      rw [voiceMarks_append, hdone] at hm'
      rcases List.mem_append.mp hm' with h | h
      · obtain ⟨rfl, _, htext⟩ := buildLadder_voice h
        exact .inl ⟨rfl, hv hmain htext⟩
      · exact .inr (mem_envelopeMarks.mp h).1
  · have hf := finishBurst_voice env s₁ plan items
    have hs : s₁.Carries (s₁.finishBurst env plan items) :=
      ⟨hf.id, hf.counter, hf.effectiveVoice, fun hr => by simp [hf.responded, hr]⟩
    refine Speaks.burst plan.rc (hb'.carries.trans hs)
      (hf.inflight.trans hb'.inflight) hnew (hmint'.mono hf.id hf.counter) fun m hm => ?_
    rw [List.append_assoc, hopen, voiceMarks_append, hdone] at hm
    rcases List.mem_append.mp hm with h | h
    · exact .inl (mem_envelopeMarks.mp h)
    · rcases List.mem_append.mp h with h | h
      · obtain ⟨rfl, hmsg, htext⟩ := buildLadder_voice h
        refine .inr ⟨rfl, fun hmain => ⟨hv hmain htext, ?_⟩⟩
        rw [hf.responded]
        simp [hmain, hmsg, htext]
      · exact .inl (mem_envelopeMarks.mp h)

theorem failedResponse_speaks (hb : s₀.Beside s)
    (hnew : ∀ id, s₀.Minted id → respID ≠ id) (hmint : s.Minted respID) (msg : Lib.Bytes)
    (rc : ResponseCtx) : Gives (Speaks s₀) (s.failedResponse env respID msg rc) := by
  have hs := (failedResponse_aside env s respID msg rc).beside
  have hout : voiceMarks (s.failedResponse env respID msg rc).2 =
      envelopeMarks respID rc ++ envelopeMarks respID rc := by
    have hopen := responseObject_enveloped s respID .inProgress [] rc none none
    have hdone := responseObject_enveloped s respID .failed [] rc (some (.failed msg)) (some zeroUsage)
    refine (hopen.marks _ (.inl rfl)).trans (congrArg _ ?_)
    exact (hdone.marks [] (.inr rfl)).trans (List.append_nil _)
  refine Speaks.burst rc (hb.trans hs).carries (hs.inflight.trans hb.inflight) hnew
    (hmint.mono hs.id hs.counter) fun m hm => ?_
  rw [hout, List.mem_append, or_self] at hm
  exact .inl (mem_envelopeMarks.mp hm)

/-- A response asked for before any audio was heard keeps to the voice of the session. -/
def KeepsVoice (env : Env F) (s : Session F) (raw : Raw) : Prop :=
  s.respondedWithAudio = false → s.InVoice (s.newResponseCtx env raw)

theorem keepsVoice_default (s : Session F) : s.KeepsVoice env [] := fun _ _ _ => rfl

theorem createResponse_speaks (hv : s.KeepsVoice env ce.response) :
    Gives (Speaks s) (s.createResponse env ce) := by
  rcases s.createResponse_cases env ce with ⟨e, h⟩ | ⟨hfree, h⟩
  · rw [h]
    exact (Beside.refl s).speaks rfl
  · have hvoice : s.InVoice (s.newResponseCtx env ce.response) := by
      intro hmain htext
      cases hr : s.respondedWithAudio with
      | false => exact hv hr hmain htext
      | true => exact (hfree hmain).2 hr
    generalize s.createResponse env ce = r at h
    cases h with
    | failed hp => exact failedResponse_speaks env hp.aside.beside hp.new hp.minted _ _
    | emitted hp => exact emitResponse_speaks env hp.aside.beside hp.new hp.minted hvoice

/-! ## Paced emission -/

/-- Emission only sets the lock, and sets it when audio is heard. -/
theorem Emission.voice {inf' : Inflight F} (h : Emission s inf ev s' inf' out) :
    s.Carries s' ∧ ∀ id, .audio id ∈ voiceMarks out → s'.respondedWithAudio = true := by
  have haudio : ∀ id, .audio id ∈ voiceMarks out → s'.respondedWithAudio = true := by
    intro id hm
    obtain ⟨e, he, hmark⟩ := mem_voiceMarks.mp hm
    obtain ⟨i, item, delta, rfl⟩ := Event.eq_audio_of_voiceMark hmark
    exact h.lock he
  rcases h.shelved with hs | ⟨rfl, -⟩
  · exact ⟨hs.apart.beside.carries, haudio⟩
  · exact ⟨⟨rfl, le_rfl, rfl, fun _ => rfl⟩, haudio⟩

theorem completeResponse_speaks (s : Session F) (inf : Inflight F) :
    Gives (Speaks { s with inflight := none }) (s.completeResponse env inf) := by
  unfold completeResponse
  dsimp only
  split
  · refine Beside.before ?_ (createResponse_speaks env (keepsVoice_default env _))
    exact ⟨rfl, le_rfl, rfl, rfl, rfl⟩
  · refine Beside.speaks (Beside.trans ?_ (armIdleTimer_aside env _).beside) rfl
    exact ⟨rfl, le_rfl, rfl, rfl, rfl⟩

theorem drainQueue_speaks (s : Session F) (now : Int) :
    Gives (Speaks s) (s.drainQueue env now) := by
  have hstep : ∀ (s : Session F) inf ev rest, inf.queue = ev :: rest → ∀ j : Option (Inflight F),
      (∀ inf', j = some inf' → inf'.respID = inf.respID ∧ inf'.rc = inf.rc ∧ inf'.queue = rest) →
      Speaks { s with inflight := some inf } (s.emitQueued { inf with queue := rest } ev).2.2
        { (s.emitQueued { inf with queue := rest } ev).1 with inflight := j } := by
    intro s inf ev rest hqueue j hj
    have hemission := emitQueued_cases s { inf with queue := rest } ev
    obtain ⟨⟨hid, hc, hvoice, hmono⟩, haudio⟩ := hemission.voice
    refine Speaks.advance rfl ⟨hid, hc, hvoice, hmono⟩ ?_ haudio ?_
    · refine fun m hm => .inl (voiceMarks_of_sent (fun e he => ?_) m hm)
      exact ⟨ev, hqueue ▸ List.mem_cons_self, hemission.sent e he⟩
    · intro inf' h
      obtain ⟨h₁, h₂, h₃⟩ := hj inf' h
      refine ⟨h₁, h₂, fun m hm => ?_⟩
      rw [hqueue, voiceMarks_cons]
      exact List.mem_append_right _ (h₃ ▸ hm)
  refine drainQueue_induction .refl Speaks.trans ?_ ?_ s now
  · intro s inf ev rest t hqueue _
    have htracks := (emitQueued_cases s { inf with queue := rest } ev).tracks
    refine hstep s inf ev rest hqueue _ ?_
    rintro _ ⟨⟩
    exact ⟨htracks.respID, htracks.rc, htracks.queue⟩
  · rintro s inf ev hqueue t rfl
    exact (hstep s inf ev [] hqueue none (by simp)).trans (completeResponse_speaks env _ _)

/-! ## Cancellation and truncation -/

theorem cancelInflight_speaks (hinf : s.inflight = some inf) (reason : CancelReason) :
    Gives (Speaks s) (s.cancelInflight inf reason) := by
  obtain ⟨out, r, hout, hr, hclosing, hs⟩ := s.cancelInflight_cases inf reason
  have hb := hs.apart.beside
  have hdone : voiceMarks ([.responseDone r] : Events F) =
      envelopeMarks inf.respID inf.rc := by
    rw [hr.marks [] (.inr rfl), voiceMarks_nil, List.append_nil]
  have hmarks : ∀ m ∈ voiceMarks (out ++ [.responseDone r]),
      (m ∈ voiceMarks inf.queue ∨ m = .envelope inf.respID inf.rc.voice) ∧ ∀ id, m ≠ .audio id := by
    intro m hm
    rw [voiceMarks_append, hdone] at hm
    rcases List.mem_append.mp hm with h | h
    · refine ⟨.inl (voiceMarks_of_sent (fun e he => (hclosing e he).2) m h), ?_⟩
      rintro id rfl
      obtain ⟨e, he, hmark⟩ := mem_voiceMarks.mp h
      obtain ⟨i, item, delta, rfl⟩ := Event.eq_audio_of_voiceMark hmark
      exact absurd (hclosing _ he).1 (by simp [Event.isClosing])
    · obtain ⟨rfl, -⟩ := mem_envelopeMarks.mp h
      exact ⟨.inr rfl, by simp⟩
  rw [Gives, hout]
  refine Speaks.advance hinf ⟨hb.id, hb.counter, hb.effectiveVoice, hb.carries.responded⟩
    (fun m hm => (hmarks m hm).1) ?_ ?_
  · exact fun id hm => absurd rfl ((hmarks _ hm).2 id)
  · exact fun inf' h => absurd (hb.inflight.symm.trans h) (by simp)

theorem truncateInflightItem_speaks (s : Session F) (id : String) :
    Speaks s [] (s.truncateInflightItem id) := by
  rcases s.truncateInflightItem_cases id with h | ⟨inf, heap, queue, onDone, hinf, hthin, h⟩
  · rw [h]
    exact .refl s
  · rw [h]
    refine Speaks.advance hinf ⟨rfl, le_rfl, rfl, fun hr => hr⟩ (by simp) (by simp) ?_
    rintro _ ⟨⟩
    exact ⟨rfl, rfl, voiceMarks_of_sent hthin.mem⟩

theorem stamp_voice (s : Session F) (out : Events F) :
    voiceMarks ((s.stamp out).2.map (·.event)) = voiceMarks out := by
  rw [stamp_events, voiceMarks, List.filterMap_map]
  exact congrArg (List.filterMap · out) (funext fun e => Event.voiceMark_map s.view e)

/-! ## Requests -/

theorem deleteItem_speaks (s : Session F) (id : String) :
    Gives (Speaks s) (s.deleteItem env id) := by
  unfold deleteItem
  split
  · exact (Beside.refl s).speaks rfl
  · cases hinf : s.inflight with
    | none => exact Beside.speaks ⟨rfl, le_rfl, rfl, rfl, by simp [removeItem, hinf]⟩ rfl
    | some inf =>
      refine Speaks.advance hinf ⟨rfl, le_rfl, rfl, fun hr => hr⟩ (by simp [voiceMarks, Event.voiceMark])
        (by simp [voiceMarks, Event.voiceMark]) ?_
      intro inf' h
      obtain rfl : _ = inf' := by simpa [removeItem, hinf] using h
      exact ⟨rfl, rfl, fun m hm => hm⟩

/-! ## Settings -/

theorem applyConfig_voice {env : Env F} (hr : s.respondedWithAudio = true)
    (hvalid : s.validateVoiceChange env raw = none) :
    (s.applyConfig env raw).effectiveVoice = s.effectiveVoice := by
  unfold validateVoiceChange at hvalid
  unfold applyConfig
  by_cases hraw : raw = []
  · rw [if_pos hraw]
  · rw [if_neg (by simp [hr, hraw])] at hvalid
    rw [if_neg hraw]
    cases hu : env.decode.sessionUpdate raw with
    | none => rfl
    | some u =>
      rw [hu] at hvalid
      dsimp only at hvalid ⊢
      set voice := overrideText u.voice ((u.audioOutput.map (·.voice)).getD "") with hvoice
      have hmerge : (s.cfg.merge u).voice = overrideText s.cfg.voice voice := by
        rw [hvoice]
        simp only [SessionConfig.merge, overrideText]
        split <;> simp_all
      rw [effectiveVoice, hmerge, overrideText]
      by_cases hempty : voice = ""
      · rw [if_pos hempty, effectiveVoice]
      · have heq : voice = s.effectiveVoice := by
          by_contra hne
          simp [hempty, hne] at hvalid
        rw [if_neg hempty, if_pos hempty, heq]

/-- The voice of a request depends on the configuration only. -/
theorem newResponseCtx_inVoice (hcfg : s'.cfg = s.cfg) (raw : Raw) :
    s'.InVoice (s'.newResponseCtx env raw) ↔ s.InVoice (s.newResponseCtx env raw) := by
  have hvoice : s'.effectiveVoice = s.effectiveVoice := by rw [effectiveVoice, effectiveVoice, hcfg]
  have hmods : s'.outputModalities = s.outputModalities := by
    rw [outputModalities, outputModalities, hcfg]
  have hsame : (s'.newResponseCtx env raw).voice = (s.newResponseCtx env raw).voice ∧
      (s'.newResponseCtx env raw).mods = (s.newResponseCtx env raw).mods ∧
      (s'.newResponseCtx env raw).outOfBand = (s.newResponseCtx env raw).outOfBand := by
    unfold newResponseCtx
    split
    · exact ⟨hvoice, hmods, rfl⟩
    · split
      · exact ⟨hvoice, hmods, rfl⟩
      · simp only [overrideCtx_settings, hvoice, hmods, and_self]
  obtain ⟨h₁, h₂, h₃⟩ := hsame
  rw [InVoice, InVoice, ResponseCtx.textOnly, ResponseCtx.textOnly, h₁, h₂, h₃, hvoice]

variable [GoFloat F]
variable {M : List VoiceMark}

/-! ## Updates -/

def audioQueued (s : Session F) : Bool := (voiceMarks s.queue).any fun m => m matches .audio _

theorem updateSession_speaks
    (hv : s.respondedWithAudio = false → s.audioQueued = true →
      (s.applyConfig env raw).effectiveVoice = s.effectiveVoice) :
    Gives (Speaks s) (s.updateSession env raw) := by
  have hvoice : s.validateUpdate env raw = none →
      s.respondedWithAudio = true ∨ (∃ id, .audio id ∈ voiceMarks s.queue) →
      (s.applyConfig env raw).effectiveVoice = s.effectiveVoice := by
    intro hvalid hheard
    cases hr : s.respondedWithAudio with
    | true =>
      simp only [validateUpdate, Option.orElse_eq_none] at hvalid
      exact applyConfig_voice hr hvalid.2.2.1
    | false =>
      obtain ⟨id, hid⟩ := hheard.resolve_left (by simp [hr])
      exact hv hr (List.any_eq_true.mpr ⟨_, hid, rfl⟩)
  obtain ⟨cfg, hcfg⟩ := applyConfig_eq env s raw
  rw [hcfg] at hvoice
  unfold updateSession
  split
  · exact (Beside.refl s).speaks rfl
  next hvalid =>
    rw [hcfg]
    dsimp only
    have hset : Speaks s [] { s with cfg := cfg } :=
      Speaks.reconfigured rfl le_rfl rfl rfl rfl (hvoice hvalid)
    refine hset.before (Beside.speaks ?_ rfl)
    split
    · unfold refreshVAD
      dsimp only
      split <;> exact ⟨rfl, le_rfl, rfl, rfl, rfl⟩
    · exact .refl _

/-! ## Calls -/

/-- Before any audio was heard, a request that will be heard asks for the voice of the
session, and an update made while audio is queued does not change it. -/
def VoiceSteady (env : Env F) (s : Session F) : Call → Prop
  | .handle ce =>
    s.respondedWithAudio = false →
      (ce.type = .responseCreate → s.InVoice (s.newResponseCtx env ce.response)) ∧
      (ce.type = .sessionUpdate → s.audioQueued = true →
        (s.applyConfig env ce.session).effectiveVoice = s.effectiveVoice)
  | _ => True

instance (s : Session F) (rc : ResponseCtx) : Decidable (s.InVoice rc) :=
  inferInstanceAs (Decidable (_ → _ → _))

instance (env : Env F) (s : Session F) : (c : Call) → Decidable (s.VoiceSteady env c)
  | .handle _ => inferInstanceAs (Decidable (_ → _ ∧ _))
  | .greeting | .tick _ => inferInstanceAs (Decidable True)

theorem passage_speaks : Passage env Speaks Speaks where
  trans := Speaks.trans
  weaken h := h
  follow := Speaks.trans
  aside ha hout := ha.apart.beside.speaks
    (voiceMarks_of_silent fun e he => Event.mark_of_isRemark (hout e he))
  before ha h := ha.apart.beside.before h
  respond s := createResponse_speaks env (keepsVoice_default env s)
  start s v ms h := by
    have hstart : Speaks s [.speechStarted ms (s.nextID .item).2] _ := (announce_apart s v).beside.speaks rfl
    exact hstart.trans h
  commit s := (commitItem_apart env s).beside.speaks (voiceMarks_of_silent (commitItem_silent env s))
  turn s _ := ((newConversationItem_apart s).trans (storeTurn_frame ..).apart).beside.speaks rfl
  drain s now := drainQueue_speaks env s now
  cancel hinf reason := cancelInflight_speaks hinf reason
  truncate s id := truncateInflightItem_speaks s id

theorem dispatch_speaks (hcreate : ce.type = .responseCreate → s.KeepsVoice env ce.response)
    (hupdate : ce.type = .sessionUpdate → s.respondedWithAudio = false → s.audioQueued = true →
      (s.applyConfig env ce.session).effectiveVoice = s.effectiveVoice) :
    Gives (Speaks s) (s.dispatch env ce) := by
  have P := passage_speaks env (F := F)
  refine P.handling.dispatch ?_ ?_ ?_ ?_ ?_
  · exact fun htype => updateSession_speaks env (hupdate htype)
  · refine fun _ => P.handling.createItem fun s₁ it id after _ _ _ _ => ?_
    refine (addItem_apart env s₁ it id after).beside.speaks ?_
    unfold addItem
    split <;> rfl
  · intro htype
    refine P.handling.requestResponse (createResponse_speaks env fun hr => ?_)
    refine (newResponseCtx_inVoice env (s := s) ?_ ce.response).mpr (hcreate htype hr)
    rfl
  · exact deleteItem_speaks env s _
  · exact fun _ => P.cancelResponse s ce

/-- A steady call keeps the voices in agreement. -/
theorem call_voiced {c : Call} (hc : s.VoiceSteady env c) (hM : s.Voiced M) :
    (s.call env c).1.Voiced (M ++ voiceMarks ((s.call env c).2.map (·.event))) := by
  have hstamp : ∀ {t : Session F} {out : Events F}, Speaks s out t →
      (t.stamp out).1.Voiced (M ++ voiceMarks ((t.stamp out).2.map (·.event))) := by
    intro t out h
    rw [stamp_voice]
    exact (h.after (extends_stamp t out).beside) M hM
  cases c with
  | greeting => exact hstamp ((Beside.refl s).speaks rfl)
  | handle ce =>
    have hb : s.Beside { s with lastClientEventID := ce.eventID } := ⟨rfl, le_rfl, rfl, rfl, rfl⟩
    refine hstamp (hb.before (dispatch_speaks env ?_ ?_))
    · intro htype hr
      refine (newResponseCtx_inVoice env (s := s) ?_ ce.response).mpr ((hc hr).1 htype)
      rfl
    · intro htype hr hq
      refine Eq.trans ?_ ((hc hr).2 htype hq)
      unfold applyConfig
      split
      · rfl
      · split <;> rfl
  | tick now => exact hstamp ((passage_speaks env).advance s now)

theorem run_voiced (calls : List Call)
    (hsteady : ∀ pre c post, calls = pre ++ c :: post → (s.run env pre).VoiceSteady env c)
    (hM : s.Voiced M) :
    (s.run env calls).Voiced (M ++ voiceMarks ((s.trace env calls).map (·.event))) := by
  induction calls generalizing s M with
  | nil =>
    rw [trace, List.map_nil, voiceMarks_nil, List.append_nil]
    exact hM
  | cons c calls ih =>
    rw [trace, List.map_append, voiceMarks_append, ← List.append_assoc]
    refine ih ?_ (call_voiced env (hsteady [] c calls rfl) hM)
    rintro pre c' post rfl
    exact hsteady (c :: pre) c' post rfl

end Session

variable [GoFloat F]

open Session

theorem Setup.voiced (env : Env F) (setup : Setup) : (setup.session env).Voiced [] := by
  have hfree := (setup.fresh env).inflight
  exact ⟨by simp, by simp, by simp [hfree], by simp [hfree], by simp [hfree]⟩

/-- The responses a run lets the client hear: their envelopes and their audio. -/
def heardVoices (out : List (ServerEvent F)) : List VoiceMark := voiceMarks (out.map (·.event))

/-- In a run of steady calls the responses of the conversation that were heard carry one
voice in all their envelopes. -/
theorem one_voice_heard (env : Env F) (setup : Setup) (calls : List Call)
    (hsteady : ∀ pre c post, calls = pre ++ c :: post →
      ((setup.session env).run env pre).VoiceSteady env c) {id id' v v' : String}
    (hv : .envelope id v ∈ heardVoices ((setup.session env).trace env calls))
    (ha : .audio id ∈ heardVoices ((setup.session env).trace env calls))
    (hv' : .envelope id' v' ∈ heardVoices ((setup.session env).trace env calls))
    (ha' : .audio id' ∈ heardVoices ((setup.session env).trace env calls)) : v = v' := by
  have hM := run_voiced env calls hsteady (setup.voiced env)
  rw [List.nil_append] at hM
  rw [(hM.agreed id v hv ha).1, (hM.agreed id' v' hv' ha').1]

/-! ## A voice changed while audio is queued -/

section
open Lib

def versePayload : Raw := Utf8.bytes "\x7b\"voice\":\"verse\"\x7d"

def voiceEnv : Env Rat :=
  answering (Utf8.bytes "Hello") (idleDecoders
    [(versePayload, { SessionUpdate.absent with voice := "verse" })] [])

def pacedSession : Session Rat := ({ id := "sess_1", paceInterval := 1 } : Setup).session voiceEnv

/-- The voice changes between the opening of a paced response and its first audio. -/
def voiceCalls : List Call :=
  [.handle { type := .responseCreate }, .handle { type := .sessionUpdate, session := versePayload },
    .tick 1000,
    .handle { type := .responseCreate },
    .tick 1000]

def voiceEarlier : List Call :=
  [.handle { type := .sessionUpdate, session := versePayload }, .handle { type := .responseCreate },
    .tick 1000,
    .handle { type := .responseCreate },
    .tick 1000]

end

/-- Both responses are heard, each in its own voice. -/
theorem two_voices_heard :
    heardVoices (pacedSession.trace voiceEnv voiceCalls) =
      [.envelope "resp_sess_1_1" "alloy", .audio "resp_sess_1_1", .envelope "resp_sess_1_1" "alloy",
        .envelope "resp_sess_1_17" "verse", .audio "resp_sess_1_17", .envelope "resp_sess_1_17" "verse"] := by
  decide +kernel

theorem one_voice_heard_verse :
    (.envelope "resp_sess_1_2" "verse" ∈ heardVoices (pacedSession.trace voiceEnv voiceEarlier) ∧
      .audio "resp_sess_1_2" ∈ heardVoices (pacedSession.trace voiceEnv voiceEarlier)) ∧
      ∀ id v, .envelope id v ∈ heardVoices (pacedSession.trace voiceEnv voiceEarlier) →
        .audio id ∈ heardVoices (pacedSession.trace voiceEnv voiceEarlier) → v = "verse" := by
  have hheard : .envelope "resp_sess_1_2" "verse" ∈ heardVoices (pacedSession.trace voiceEnv voiceEarlier) ∧
      .audio "resp_sess_1_2" ∈ heardVoices (pacedSession.trace voiceEnv voiceEarlier) := by
    decide +kernel
  have hsteady : ∀ i : Fin voiceEarlier.length,
      (pacedSession.run voiceEnv (voiceEarlier.take i)).VoiceSteady voiceEnv (voiceEarlier.get i) := by
    decide +kernel
  refine ⟨hheard, fun id v hv ha => ?_⟩
  exact one_voice_heard voiceEnv { id := "sess_1", paceInterval := 1 } voiceEarlier
    (Session.forall_call_iff.mpr hsteady) hv ha hheard.1 hheard.2

end MockAgents.Realtime
