import MockAgents.Realtime.Proofs.Lifecycle
/-!
# Response lifecycle over whole runs

Each handler is followed by the ledger of response ids, so the events of any run
are well bracketed and the response in flight always has a queue that ends with
its own `response.done`.
-/

namespace MockAgents.Realtime

open Lib.Lifecycle List Option Event Ledger

variable {F : Type}
variable (env : Env F) (s : Session F)

namespace Session

/-! ## Paced emission -/

theorem Event.mark_of_isRemark {ev : Event F ItemRef} (h : ev.isRemark = true) : ev.mark = .silent := by
  cases ev <;> first
    | rfl
    | exact absurd h (by simp [isRemark])

theorem emitQueued_keeps (inf : Inflight F) (ev : Event F ItemRef) :
    s.Keeps (s.emitQueued inf ev).1 := by
  obtain ⟨b, h⟩ := emitQueued_shelved s inf ev
  refine Keeps.trans ?_ h.apart.keeps
  exact ⟨rfl, le_rfl, rfl⟩

variable {respID : String} {ev : Event F ItemRef} {queue out : Events F}
variable {s s' : Session F} {inf : Inflight F}

/-- The response in flight closes and leaves the slot. -/
theorem Sim.closing {r : ResponseObject ItemRef} (hslot : s.slot = some (respID, queue))
    (hid : s'.id = s.id) (hc : s.counter ≤ s'.counter) (hfree : s'.slot = none) (hr : r.id = respID)
    (hout : ∀ e ∈ out, e.Inside respID) : Sim s (out ++ [.responseDone r]) s' := by
  intro L hL
  have hopened : L.opened = [(respID, true)] := by
    rw [hL.opened, hslot]
    rfl
  refine ⟨⟨[], respID :: L.finished⟩, ?_, ?_, ?_, ?_⟩
  · have hrun := run_close hopened (out.map mark) (inside_marks hout)
    simpa only [map_append, map_cons, map_nil, mark, hr] using hrun
  · rw [hfree]
    rfl
  · intro id hmem
    have hmem' : id ∈ L.ids := by
      simp only [ids, map_nil, nil_append, mem_cons, mem_append] at hmem ⊢
      rcases hmem with rfl | h
      · exact .inl (by simp [hopened])
      · exact .inr h
    exact (hL.minted id hmem').mono hid hc
  · intro p hp
    rw [hfree] at hp
    cases hp

theorem sim_completeResponse {env : Env F} {s₀ s : Session F}
    (h : Sim s₀ out { s with history := s.history ++ inf.onDone, inflight := none }) :
    Sim s₀ (out ++ (s.completeResponse env inf).2) (s.completeResponse env inf).1 := by
  refine h.trans ?_
  unfold completeResponse
  dsimp only
  split
  · refine Keeps.sim ?_ (sim_createResponse env _ {})
    exact ⟨rfl, le_rfl, rfl⟩
  · exact Sim.keeps (armIdleTimer_keeps env _)

theorem Sim.emitting {rest out : Events F}
    (hslot : s.slot = some (respID, ev :: rest)) (hid : s'.id = s.id) (hc : s.counter ≤ s'.counter)
    (hslot' : s'.slot = some (respID, rest)) (hrest : rest ≠ [])
    (hout : ev.Inside respID → ∀ e ∈ out, e.Inside respID) : Sim s out s' := by
  intro L hL
  have hq := hL.queue _ hslot
  rcases hq.cons with ⟨hnil, _⟩ | ⟨hin, hq'⟩
  · exact absurd hnil hrest
  · have hopened : L.opened = [(respID, true)] := by
      rw [hL.opened, hslot]
      rfl
    refine ⟨L, run_carried L (by simp [hopened]) _ (inside_marks (hout hin)), ?_, ?_, ?_⟩
    · rw [hslot', hopened]
      rfl
    · exact fun id h => (hL.minted id h).mono hid hc
    · intro p hp
      rw [hslot'] at hp
      obtain rfl := some.inj hp
      exact hq'

/-- What every emission keeps, and the completion after the last one, a `Tick` keeps. -/
theorem drainQueue_induction {env : Env F} {R : Session F → Events F → Session F → Prop}
    (refl : ∀ s, R s [] s)
    (trans : ∀ {s₁ s₂ s₃ o₁ o₂}, R s₁ o₁ s₂ → R s₂ o₂ s₃ → R s₁ (o₁ ++ o₂) s₃)
    (emit : ∀ (s : Session F) inf ev rest t, inf.queue = ev :: rest → rest ≠ [] →
      R { s with inflight := some inf } (s.emitQueued { inf with queue := rest } ev).2.2
        { (s.emitQueued { inf with queue := rest } ev).1 with
          inflight := some { (s.emitQueued { inf with queue := rest } ev).2.1 with nextAt := t } })
    (last : ∀ (s : Session F) inf ev, inf.queue = [ev] → ∀ t, t = s.emitQueued { inf with queue := [] } ev →
      R { s with inflight := some inf } (t.2.2 ++ (t.1.completeResponse env t.2.1).2)
        (t.1.completeResponse env t.2.1).1) (s : Session F) (now : Int) :
    Gives (R s) (s.drainQueue env now) := by
  have hloop : ∀ queue (s : Session F) inf, inf.queue = queue →
      Gives (R { s with inflight := some inf }) (tickLoop env now queue s inf) := by
    intro queue
    induction queue with
    | nil => exact fun s inf _ => refl _
    | cons ev rest ih =>
      intro s inf hqueue
      unfold tickLoop
      dsimp only
      split
      next hrest =>
        subst hrest
        exact last s inf ev hqueue _ rfl
      next hrest =>
        split
        · exact emit s inf ev rest _ hqueue hrest
        · exact trans (emit s inf ev rest _ hqueue hrest)
            (ih _ _ (emitQueued_cases s { inf with queue := rest } ev).tracks.queue)
  unfold drainQueue
  split
  · exact refl s
  next inf hinf =>
    split
    · exact refl s
    · have hself : { s with inflight := some inf } = s := by rw [← hinf]
      have := hloop inf.queue s inf rfl
      rwa [hself] at this

theorem sim_drainQueue (s : Session F) (now : Int) : Gives (Sim s) (s.drainQueue env now) := by
  refine drainQueue_induction (fun s => Sim.keeps (.refl s)) Sim.trans ?_ ?_ s now
  · intro s inf ev rest t hqueue hrest
    have hk := emitQueued_keeps s { inf with queue := rest } ev
    have hemission := emitQueued_cases s { inf with queue := rest } ev
    have hslot : slot { s with inflight := some inf } = some (inf.respID, ev :: rest) := by
      rw [slot, map_some, hqueue]
    refine Sim.emitting hslot hk.id hk.counter ?_ hrest ?_
    · exact congrArg some (Prod.ext hemission.tracks.respID hemission.tracks.queue)
    · exact fun hin e he => (hemission.sent e he).inside hin
  · intro s inf ev hqueue t ht
    subst ht
    have hslot : slot { s with inflight := some inf } = some (inf.respID, [ev]) := by
      rw [slot, map_some, hqueue]
    apply sim_completeResponse
    -- the last event of the queue is the response's own done
    intro L hL
    rcases (hL.queue _ hslot).cons with ⟨_, r, rfl, hr⟩ | ⟨_, _, _, heq, _⟩
    · refine Sim.closing hslot ?_ ?_ ?_ hr (by simp : ∀ e ∈ [], _) L hL
      · rfl
      · exact le_rfl
      · rfl
    · simp at heq

/-! ## Cancellation -/

theorem sim_cancelInflight (hinf : s.inflight = some inf) (reason : CancelReason) :
    Gives (Sim s) (s.cancelInflight inf reason) := by
  intro L hL
  have hslot : s.slot = some (inf.respID, inf.queue) := by rw [slot, hinf, map_some]
  obtain ⟨out, r, hout, hr, hclosing, hs⟩ := s.cancelInflight_cases inf reason
  rw [hout]
  refine Sim.closing hslot ?_ ?_ ?_ hr.1 (fun e he => ?_) L hL
  · exact hs.apart.id
  · exact hs.apart.counter
  · exact hs.apart.keeps.slot
  · exact (hL.queue _ hslot).inside (hclosing e he).1 (hclosing e he).2

/-! ## Truncation -/

theorem Thinned.closing {queue' : Events F} (h : Thinned queue queue')
    (hq : ClosingQueue respID queue) : ClosingQueue respID queue' := by
  obtain ⟨init, r, rfl, hr, hin⟩ := hq
  induction init generalizing queue' with
  | nil =>
    cases h with
    | keep hsent hrest =>
      cases hrest
      cases hsent with
      | same => exact ⟨[], r, rfl, hr, by simp⟩
      | billed _ usage => exact ⟨[], _, rfl, hr, by simp⟩
    | drop hdrop => simp at hdrop
  | cons ev init ih =>
    obtain ⟨hev, hinit⟩ := forall_mem_cons.mp hin
    cases h with
    | keep hsent hrest =>
      obtain ⟨init', r', rfl, hr', hin'⟩ := ih hrest hinit
      exact ⟨_ :: init', r', rfl, hr', forall_mem_cons.mpr ⟨hsent.inside hev, hin'⟩⟩
    | drop _ hrest => exact ih hrest hinit

theorem sim_truncateInflightItem (s : Session F) (id : String) : Sim s [] (s.truncateInflightItem id) := by
  rcases s.truncateInflightItem_cases id with h | ⟨inf, heap, queue, onDone, hinf, hthin, h⟩
  · rw [h]
    exact Sim.keeps (.refl s)
  · rw [h]
    intro L hL
    have hslot : s.slot = some (inf.respID, inf.queue) := by rw [slot, hinf, map_some]
    refine ⟨L, rfl, ?_, hL.minted, ?_⟩
    · rw [hL.opened, hslot]
      rfl
    · rintro _ ⟨⟩
      exact hthin.closing (hL.queue _ hslot)

/-! ## The other handlers -/

theorem overrideCtx_settings (s : Session F) (rc : ResponseCtx) (cfg : ResponseConfig) :
    (s.overrideCtx env rc cfg).voice = overrideText rc.voice ((cfg.audioOutput.map (·.1)).getD "") ∧
      (s.overrideCtx env rc cfg).mods =
        (if cfg.outputModalities ≠ [] then cfg.outputModalities
        else if cfg.modalities ≠ [] then cfg.modalities else rc.mods) ∧
      (s.overrideCtx env rc cfg).outOfBand = decide (cfg.conversation = "none") := by
  unfold overrideCtx
  dsimp only
  split
  · exact ⟨rfl, rfl, rfl⟩
  · split
    · exact ⟨rfl, rfl, rfl⟩
    · split <;> exact ⟨rfl, rfl, rfl⟩

theorem sim_deleteItem (s : Session F) (id : String) : Gives (Sim s) (s.deleteItem env id) := by
  unfold deleteItem
  split
  · exact Sim.quiet (.refl s) (by simp [itemNotFound, mark])
  · refine Sim.quiet ⟨rfl, le_rfl, ?_⟩ (by simp [mark])
    simp only [slot, removeItem, Option.map_map]
    rfl

variable [GoFloat F]

theorem commitItem_silent (s : Session F) : ∀ e ∈ (s.commitItem env).2, e.mark = .silent := by
  unfold commitItem
  intro e he
  simp only [conversationItemEvents, mem_append, mem_cons, not_mem_nil, or_false] at he
  rcases he with (rfl | rfl | rfl) | he
  · rfl
  · rfl
  · rfl
  · rcases mem_transcriptionEvents env he with ⟨_, _, rfl⟩ | ⟨_, _, _, rfl⟩ <;> rfl

theorem refreshVAD_keeps (s : Session F) : s.Keeps (s.refreshVAD env) := by
  obtain ⟨t, b, heq, -⟩ := refreshVAD_eq env s
  rw [heq]
  exact ⟨rfl, le_rfl, rfl⟩

theorem sim_updateSession (s : Session F) (raw : Raw) :
    Gives (Sim s) (s.updateSession env raw) := by
  rcases updateSession_eq env s raw with ⟨e, h⟩ | ⟨_, cfg, obj, h⟩ | ⟨_, cfg, obj, h⟩ <;> rw [h]
  · exact Sim.error (.refl s) _
  · exact Sim.quiet ⟨rfl, le_rfl, rfl⟩ (by simp [mark])
  · have hk := refreshVAD_keeps env { s with cfg := cfg }
    exact Sim.quiet ⟨hk.id, hk.counter, hk.slot⟩ (by simp [mark])

theorem passage_sim : Passage env Sim Sim where
  trans := Sim.trans
  weaken h := h
  follow := Sim.trans
  aside ha hout := Sim.quiet ha.apart.keeps fun e he => Event.mark_of_isRemark (hout e he)
  before ha h := ha.apart.keeps.sim h
  respond s := sim_createResponse env s {}
  start s v ms h := by
    refine Sim.trans (Sim.quiet (announce_apart s v).keeps ?_ : Sim s [.speechStarted ms _] _) h
    simp [mark]
  commit s := Sim.quiet (commitItem_apart env s).keeps (commitItem_silent env s)
  turn s _ := Sim.quiet ((newConversationItem_apart s).trans (storeTurn_frame ..).apart).keeps
    (by simp [conversationItemEvents, mark])
  drain s now := sim_drainQueue env s now
  cancel hinf reason := sim_cancelInflight hinf reason
  truncate s id := sim_truncateInflightItem s id

/-! ## Calls and runs -/

theorem tracks_call {L : Ledger String} (hL : s.Tracks L) (c : Call) :
    ∃ L', L.run ((s.call env c).2.map fun e => e.event.mark) = some L' ∧ (s.call env c).1.Tracks L' := by
  have P := passage_sim env (F := F)
  cases c with
  | greeting => exact Sim.stamped (Sim.quiet (.refl s) (by simp [mark])) hL
  | handle ce =>
    refine Sim.stamped (P.before (.scratch rfl) (P.handling.dispatch ?_ ?_ ?_ ?_ ?_)) hL
    · exact fun _ => sim_updateSession env _ _
    · refine fun _ => P.handling.createItem fun s₁ it id after _ _ _ _ => ?_
      refine Sim.quiet (addItem_apart env s₁ it id after).keeps ?_
      unfold addItem
      split <;> simp [conversationItemEvents, mark]
    · exact fun _ => P.handling.requestResponse (sim_createResponse env _ ce)
    · exact sim_deleteItem env _ _
    · exact fun _ => P.cancelResponse _ ce
  | tick now => exact Sim.stamped (P.advance s now) hL

theorem tracks_run (calls : List Call) {L : Ledger String} (hL : s.Tracks L) :
    ∃ L', L.run ((s.trace env calls).map fun e => e.event.mark) = some L' ∧
      (s.run env calls).Tracks L' := by
  induction calls generalizing s L with
  | nil => exact ⟨L, rfl, hL⟩
  | cons c calls ih =>
    obtain ⟨L₁, hr₁, hL₁⟩ := tracks_call env hL c
    obtain ⟨L₂, hr₂, hL₂⟩ := ih hL₁
    refine ⟨L₂, ?_, hL₂⟩
    rw [trace, map_append, Ledger.run_append, hr₁, bind_some, hr₂]

end Session

variable [GoFloat F]

open Session in
theorem Setup.slot_session (setup : Setup) : (setup.session env).slot = none := by
  rw [slot, (setup.fresh env).inflight]
  rfl

theorem Setup.tracks (setup : Setup) : (setup.session env).Tracks empty := by
  refine ⟨?_, ?_, ?_⟩
  · rw [setup.slot_session]
    rfl
  · intro id hid
    simp [empty, ids] at hid
  · intro p hp
    rw [setup.slot_session] at hp
    cases hp

/-- In the events of any run, every response is opened once and before anything
that carries its id, is closed at most once and carries nothing afterwards, and
one default-conversation response at most is open; the response in flight has a
queue that ends with its own `response.done`. -/
theorem response_lifecycle (env : Env F) (setup : Setup) (calls : List Call) :
    WellBracketed (((setup.session env).trace env calls).map fun e => e.event.mark) ∧
      ∀ inf, ((setup.session env).run env calls).inflight = some inf →
        ∃ init r, inf.queue = init ++ [.responseDone r] ∧ r.id = inf.respID := by
  obtain ⟨L, hr, hL⟩ := Session.tracks_run env calls (setup.tracks env)
  refine ⟨run_wellBracketed hr, ?_⟩
  intro inf hinf
  obtain ⟨init, r, hq, hid, _⟩ := hL.queue (inf.respID, inf.queue) (by rw [Session.slot, hinf]; rfl)
  exact ⟨init, r, hq, hid⟩

end MockAgents.Realtime
