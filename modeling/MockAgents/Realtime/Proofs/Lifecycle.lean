import MockAgents.Lib.Lifecycle
import MockAgents.Realtime.Proofs.Passage
/-!
# Response lifecycle

Every call of a session is simulated by a ledger of response ids: a response
opens with `response.created`, its events carry its id, and `response.done`
closes it.  Between calls the only open response is the paced one in flight.
-/

namespace MockAgents.Realtime

open Lib.Lifecycle List Event Ledger

variable {F ι κ : Type}
variable {respID : String}

/-- What an event says about responses; a default-conversation response is main. -/
def Event.mark : Event F ι → Mark String
  | .responseCreated r => .opened r.id r.conversationID.isSome
  | .responseDone r => .closed r.id
  | .ladder respID _ _ => .carried respID
  | _ => .silent

@[simp] theorem Event.mark_map (f : ι → κ) (ev : Event F ι) : (ev.map f).mark = ev.mark := by
  cases ev <;> rfl

def Event.Inside (respID : String) (ev : Event F ι) : Prop :=
  ev.mark = .silent ∨ ev.mark = .carried respID

def ClosingQueue (respID : String) (queue : List (Event F ItemRef)) : Prop :=
  ∃ init r, queue = init ++ [.responseDone r] ∧ r.id = respID ∧ ∀ e ∈ init, e.Inside respID

theorem ClosingQueue.cons {ev : Event F ItemRef} {rest : Events F}
    (h : ClosingQueue respID (ev :: rest)) :
    (rest = [] ∧ ∃ r, ev = .responseDone r ∧ r.id = respID) ∨
      (ev.Inside respID ∧ ClosingQueue respID rest) := by
  obtain ⟨init, r, heq, hid, hin⟩ := h
  cases init with
  | nil =>
    simp only [nil_append, cons.injEq] at heq
    exact .inl ⟨heq.2, r, heq.1, hid⟩
  | cons e init =>
    simp only [cons_append, cons.injEq] at heq
    obtain ⟨rfl, rfl⟩ := heq
    exact .inr ⟨hin _ mem_cons_self, init, r, rfl, hid, fun x hx => hin x (mem_cons_of_mem _ hx)⟩

theorem Event.Sent.mark {ev e : Event F ItemRef} (h : ev.Sent e) : e.mark = ev.mark := by
  cases h <;> rfl

theorem Event.Sent.inside {ev e : Event F ItemRef} (h : ev.Sent e)
    (hin : ev.Inside respID) : e.Inside respID := by
  rwa [Inside, h.mark]

/-- What a cancellation sends of a queue lies inside the response. -/
theorem ClosingQueue.inside {queue : Events F} {e : Event F ItemRef}
    (h : ClosingQueue respID queue) (hclosing : e.isClosing = true) (hsent : ∃ ev ∈ queue, ev.Sent e) :
    e.Inside respID := by
  obtain ⟨init, r, rfl, -, hin⟩ := h
  obtain ⟨ev, hev, hsent⟩ := hsent
  rcases mem_append.mp hev with hev | hev
  · exact hsent.inside (hin ev hev)
  · obtain rfl := mem_singleton.mp hev
    cases hsent <;> simp [isClosing] at hclosing

theorem inside_marks {out : List (Event F ι)} (h : ∀ e ∈ out, e.Inside respID) :
    ∀ m ∈ out.map mark, m = .silent ∨ m = .carried respID := by
  intro m hm
  obtain ⟨e, he, rfl⟩ := mem_map.mp hm
  exact h e he

namespace Session

def slot (s : Session F) : Option (String × List (Event F ItemRef)) :=
  s.inflight.map fun inf => (inf.respID, inf.queue)

/-- The ledger knows the response in flight, and only minted ids. -/
structure Tracks (s : Session F) (L : Ledger String) : Prop where
  opened : L.opened = (s.slot.map fun p => (p.1, true)).toList
  minted : ∀ id ∈ L.ids, s.Minted id
  queue : ∀ p, s.slot = some p → ClosingQueue p.1 p.2

def Sim (s : Session F) (out : List (Event F ItemRef)) (s' : Session F) : Prop :=
  ∀ L, s.Tracks L → ∃ L', L.run (out.map Event.mark) = some L' ∧ s'.Tracks L'

variable {s₁ s₂ s₃ s s' : Session F} {out : Events F} {respID : String}
variable {L : Ledger String} {r : ResponseObject ItemRef} {env : Env F} {s₀ : Session F}

theorem Sim.trans {o₁ o₂ : Events F} (h₁ : Sim s₁ o₁ s₂) (h₂ : Sim s₂ o₂ s₃) :
    Sim s₁ (o₁ ++ o₂) s₃ := by
  intro L hL
  obtain ⟨L₁, hr₁, hL₁⟩ := h₁ L hL
  obtain ⟨L₂, hr₂, hL₂⟩ := h₂ L₁ hL₁
  exact ⟨L₂, by rw [map_append, Ledger.run_append, hr₁, Option.bind_some, hr₂], hL₂⟩

/-- The step kept the slot, and minted ids at most. -/
structure Keeps (s s' : Session F) : Prop where
  id : s'.id = s.id
  counter : s.counter ≤ s'.counter
  slot : s'.slot = s.slot

theorem Keeps.refl (s : Session F) : s.Keeps s := ⟨rfl, le_rfl, rfl⟩

theorem Keeps.trans (h₁ : s₁.Keeps s₂) (h₂ : s₂.Keeps s₃) : s₁.Keeps s₃ :=
  ⟨h₂.id.trans h₁.id, h₁.counter.trans h₂.counter, h₂.slot.trans h₁.slot⟩

theorem Keeps.tracks (h : s.Keeps s') (hL : s.Tracks L) : s'.Tracks L :=
  ⟨by rw [h.slot]; exact hL.opened, fun id hid => (hL.minted id hid).mono h.id h.counter,
    fun p hp => hL.queue p (h.slot ▸ hp)⟩

theorem Apart.keeps (h : s.Apart s') : s.Keeps s' :=
  ⟨h.id, h.counter, congrArg (Option.map _) h.inflight⟩

theorem Extends.keeps (h : s.Extends s') : s.Keeps s' := h.aside.apart.keeps

theorem Reindexed.keeps (h : s.Reindexed s') : s.Keeps s' := h.shelved.apart.keeps

theorem armIdleTimer_keeps (env : Env F) (s : Session F) : s.Keeps (s.armIdleTimer env) :=
  (armIdleTimer_aside env s).apart.keeps

theorem Sim.quiet (h : s.Keeps s') (hout : ∀ e ∈ out, e.mark = .silent) : Sim s out s' := by
  intro L hL
  refine ⟨L, L.run_silent _ ?_, h.tracks hL⟩
  intro m hm
  obtain ⟨e, he, rfl⟩ := mem_map.mp hm
  exact hout e he

theorem Sim.keeps (h : s.Keeps s') : Sim s [] s' :=
  Sim.quiet h (by simp)

theorem Sim.error (h : s.Keeps s') (e : ErrorBody) : Sim s [.error e] s' :=
  Sim.quiet h (by simp [mark])

theorem Keeps.sim (h : s₁.Keeps s₂) (hs : Sim s₂ out s₃) : Sim s₁ out s₃ :=
  (Sim.keeps h).trans hs

theorem Sim.stamped (h : Sim s out s') (hL : s.Tracks L) :
    ∃ L', L.run ((s'.stamp out).2.map fun e => e.event.mark) = some L' ∧ (s'.stamp out).1.Tracks L' := by
  obtain ⟨L', hr, hL'⟩ := h L hL
  exact ⟨L', by rw [map_stamp _ _ mark fun f ev => ev.mark_map f, hr], (extends_stamp s' out).keeps.tracks hL'⟩

/-! ## Creating a response -/

/-- A response whose id was just minted opens and closes in one step. -/
theorem Sim.burst {r' : ResponseObject ItemRef} (mid : Events F) (hk : s.Keeps s')
    (hnew : ∀ id, s.Minted id → respID ≠ id) (hminted : s'.Minted respID) (hr : r.id = respID)
    (hr' : r'.id = respID) (hmain : r.conversationID.isSome = true → s.slot = none)
    (hmid : ∀ e ∈ mid, e.Inside respID) :
    Sim s (.responseCreated r :: (mid ++ [.responseDone r'])) s' := by
  intro L hL
  have hid : respID ∉ L.ids := fun h => hnew _ (hL.minted _ h) rfl
  have hfree : r.conversationID.isSome = true → ¬ ∃ o ∈ L.opened, o.2 = true := by
    intro h
    rw [hL.opened, hmain h]
    simp
  refine ⟨{ L with finished := respID :: L.finished }, ?_, ?_⟩
  · have hrun := run_burst hid hfree (mid.map mark) (inside_marks hmid)
    simpa only [map_cons, map_append, map_nil, mark, hr, hr'] using hrun
  · have hL' := hk.tracks hL
    refine ⟨hL'.opened, ?_, hL'.queue⟩
    intro id hmem
    simp only [ids, mem_append, mem_cons] at hmem
    rcases hmem with h | rfl | h
    · exact hL'.minted id (mem_append_left _ h)
    · exact hminted
    · exact hL'.minted id (mem_append_right _ h)

/-- A response whose id was just minted opens and takes the slot. -/
theorem Sim.opening {n : Int} {queue : Events F}
    (hfree : s.slot = none) (hid : s'.id = s.id) (hc : s.counter ≤ s'.counter)
    (hslot : s'.slot = some (respID, queue)) (hnew : ∀ id, s.Minted id → respID ≠ id)
    (hminted : s'.Minted respID) (hr : r.id = respID) (hconv : r.conversationID.isSome = true)
    (hqueue : ClosingQueue respID queue) : Sim s [.responseCreated r, .rateLimitsUpdated n] s' := by
  intro L hL
  have hopened : L.opened = [] := by
    rw [hL.opened, hfree]
    rfl
  have hnot : respID ∉ L.ids := fun h => hnew _ (hL.minted _ h) rfl
  refine ⟨{ L with opened := (respID, true) :: L.opened }, ?_, ?_, ?_, ?_⟩
  · have hstep : L.step (.opened respID true) = some { L with opened := (respID, true) :: L.opened } :=
      step_opened_eq hnot (by simp [hopened])
    simp only [map_cons, map_nil, mark, hr, hconv, run_cons, hstep, Option.bind_some]
    rfl
  · rw [hslot, hopened]
    rfl
  · intro id hmem
    simp only [ids, map_cons, cons_append, mem_cons] at hmem
    rcases hmem with rfl | h
    · exact hminted
    · exact (hL.minted id h).mono hid hc
  · intro p hp
    rw [hslot] at hp
    obtain rfl := Option.some.inj hp
    exact hqueue

theorem inside_buildLadder (env : Env F) (s : Session F) (respID : String) (plan : Plan) :
    ∀ e ∈ (s.buildLadder env respID plan).2.1, e.Inside respID := by
  intro e he
  cases onLadder_build env s plan he with
  | carried => exact .inr rfl
  | added | done => exact .inl rfl

theorem finishBurst_keeps (env : Env F) (s : Session F) (plan : Plan) (items : List ItemRef) :
    s.Keeps (s.finishBurst env plan items) := by
  unfold finishBurst
  split
  · exact ⟨rfl, le_rfl, rfl⟩
  · refine Keeps.trans ?_ (armIdleTimer_keeps env _)
    refine Keeps.trans ?_ (reindexed_joinItems _ items).keeps
    split <;> exact ⟨rfl, le_rfl, rfl⟩

theorem responseObject_main (s : Session F) (respID : String) (status : ResponseStatus)
    (output : List ItemRef) (rc : ResponseCtx) :
    (s.responseObject respID status output rc).conversationID.isSome = !rc.outOfBand := by
  cases h : rc.outOfBand <;> simp [responseObject, h]

theorem slot_eq_none_iff (s : Session F) : s.slot = none ↔ s.inflight = none := by
  simp [slot]

theorem sim_failedResponse {msg : Lib.Bytes} {rc : ResponseCtx}
    (hk : s₀.Keeps s) (hnew : ∀ id, s₀.Minted id → respID ≠ id) (hminted : s.Minted respID)
    (hfree : rc.outOfBand = false → s₀.slot = none) :
    Gives (Sim s₀) (s.failedResponse env respID msg rc) := by
  have hkeep := (failedResponse_aside env s respID msg rc).apart.keeps
  refine Sim.burst [] (hk.trans hkeep) hnew (hminted.mono hkeep.id hkeep.counter) rfl rfl ?_
    (by simp)
  intro h
  rw [responseObject_main] at h
  exact hfree (by simpa using h)

theorem sim_emitResponse {plan : Plan} (hk : s₀.Keeps s)
    (hnew : ∀ id, s₀.Minted id → respID ≠ id) (hminted : s.Minted respID)
    (hfree : plan.rc.outOfBand = false → s₀.slot = none) :
    Gives (Sim s₀) (s.emitResponse env respID plan) := by
  have hb := (extends_buildLadder env s respID plan).keeps
  have hkb := hk.trans hb
  have hmb := hminted.mono hb.id hb.counter
  unfold emitResponse
  by_cases hpaced : (decide ((s.buildLadder env respID plan).1.paceInterval > 0) &&
      (s.buildLadder env respID plan).1.vad.isSome && !plan.rc.outOfBand) = true
  · simp only [hpaced, if_true]
    have hoob : plan.rc.outOfBand = false := by
      simp only [Bool.and_eq_true, Bool.not_eq_true'] at hpaced
      exact hpaced.2
    refine Sim.opening (hfree hoob) hkb.id hkb.counter rfl hnew hmb rfl ?_
      ⟨_, _, rfl, rfl, inside_buildLadder env s respID plan⟩
    rw [responseObject_main, hoob]
    rfl
  · simp only [hpaced, Bool.false_eq_true, if_false]
    have hf := finishBurst_keeps env (s.buildLadder env respID plan).1 plan
      (s.buildLadder env respID plan).2.2
    refine Sim.burst (.rateLimitsUpdated _ :: (s.buildLadder env respID plan).2.1)
      (hkb.trans hf) hnew (hmb.mono hf.id hf.counter) rfl rfl ?_ ?_
    · intro h
      rw [responseObject_main] at h
      exact hfree (by simpa using h)
    · intro e he
      rcases mem_cons.mp he with rfl | he
      · exact .inl rfl
      · exact inside_buildLadder env s respID plan e he

theorem sim_createResponse (env : Env F) (s : Session F) (ce : ClientEvent) :
    Gives (Sim s) (s.createResponse env ce) := by
  rcases s.createResponse_cases env ce with ⟨e, h⟩ | ⟨hfree, h⟩
  · rw [h]
    exact Sim.error (.refl s) e
  · have hslot : (s.newResponseCtx env ce.response).outOfBand = false → s.slot = none := fun hmain =>
      s.slot_eq_none_iff.mpr (hfree hmain).1
    generalize s.createResponse env ce = r at h
    cases h with
    | failed hp => exact sim_failedResponse hp.aside.apart.keeps hp.new hp.minted hslot
    | emitted hp => exact sim_emitResponse hp.aside.apart.keeps hp.new hp.minted hslot

end Session

end MockAgents.Realtime
