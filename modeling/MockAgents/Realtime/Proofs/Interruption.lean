import MockAgents.Realtime.Proofs.Idle
import MockAgents.Realtime.Proofs.Transcription
/-!
# The idle timeout and a speaking user

The deadline is armed by the end of a response whether or not the user speaks, so a
response that ends during a speech cycle can time the user out.  In runs where none
does, a speech cycle always finds the deadline unarmed.
-/

namespace MockAgents.Realtime

variable {F ι : Type}
variable (env : Env F)

/-- What a speech cycle and the timeout show the client. -/
inductive Cue where
  | started (id : String)
  | stopped (id : String)
  | cleared
  | committed (id : String)
  | timeout (id : String)
deriving DecidableEq, Repr

def Event.cue : Event F ι → Option Cue
  | .speechStarted _ id => some (.started id)
  | .speechStopped _ id => some (.stopped id)
  | .bufferCleared => some .cleared
  | .bufferCommitted _ id => some (.committed id)
  | .timeoutTriggered _ id => some (.timeout id)
  | _ => none

/-- A stop, a clear or a commit ends a speech cycle. -/
def Event.endsSpeech (ev : Event F ι) : Bool :=
  match ev.cue with
  | some (.stopped _) | some .cleared | some (.committed _) => true
  | _ => false

namespace Session

/-! ## The condition -/

def speaking (s : Session F) : Bool := (s.vad.map (·.speechActive)).getD false

def asksOutOfBand (env : Env F) (ce : ClientEvent) : Bool :=
  ce.response ≠ [] && (env.decode.responseConfig ce.response).any (·.conversation = "none")

def lastDue (s : Session F) (now : Int) : Bool :=
  match s.inflight with
  | none => false
  | some inf => inf.nextAt + (inf.queue.length - 1) * s.paceInterval ≤ now

/-- No response is asked for, and none ends, while a turn is on and the timeout is
available. -/
def Patient (env : Env F) (s : Session F) (c : Call) : Prop :=
  s.speaking = true → s.idleAvailable = true →
    match c with
    | .greeting => True
    | .handle ce =>
      (ce.type = .responseCreate → asksOutOfBand env ce = true) ∧
        (ce.type = .responseCancel → s.pendingResponse = false)
    | .tick now => s.lastDue now = false

instance (env : Env F) (s : Session F) (c : Call) : Decidable (s.Patient env c) :=
  match c with
  | .greeting => .isTrue fun _ _ => trivial
  | .handle ce => inferInstanceAs (Decidable (s.speaking = true → s.idleAvailable = true →
      (ce.type = .responseCreate → asksOutOfBand env ce = true) ∧
        (ce.type = .responseCancel → s.pendingResponse = false)))
  | .tick now => inferInstanceAs (Decidable (s.speaking = true → s.idleAvailable = true →
      s.lastDue now = false))

/-! ## Who arms the deadline -/

def Undisturbed (s : Session F) : Prop := s.speaking = true → s.idleAt = 0

variable {s s' : Session F} {out : Events F} {ce : ClientEvent} {c : Call}
variable {id : String} {t : Int}

theorem speaking_congr (h : s'.vad = s.vad) : s'.speaking = s.speaking := by
  rw [speaking, speaking, h]

theorem Undisturbed.mono (h : s.Undisturbed) (hon : s'.speaking = true → s.speaking = true)
    (hi : s'.idleAt = s.idleAt ∨ s'.idleAt = 0) : s'.Undisturbed := by
  intro hs'
  rcases hi with hi | hi
  · exact hi.trans (h (hon hs'))
  · exact hi

theorem Undisturbed.carry (h : s.Undisturbed) (hv : s'.vad = s.vad)
    (hi : s'.idleAt = s.idleAt ∨ s'.idleAt = 0) : s'.Undisturbed :=
  h.mono (speaking_congr hv).symm.trans hi

theorem Undisturbed.still (hs : s.Undisturbed) (h : s.Still s') : s'.Undisturbed := by
  have hsame : s'.speaking = s.speaking := by
    have hact := congrArg (Option.map Prod.fst) h.turn
    simp only [Option.map_map, Function.comp_def] at hact
    rw [speaking, speaking, hact]
  exact hs.mono hsame.symm.trans h.idle

/-- A quiet step arms a deadline only where the timeout is available. -/
theorem Quiet.undisturbed (h : Quiet s out s') (hs : s.Undisturbed)
    (hoff : ¬ (s.speaking = true ∧ s.idleAvailable = true)) : s'.Undisturbed := by
  intro hon
  have hon' : s.speaking = true := speaking_congr h.settled.vad ▸ hon
  rcases h.idle with hi | hi | hi
  · rw [hi]
    exact hs hon'
  · exact hi
  · exact absurd ⟨hon', hi.2⟩ hoff

theorem newResponseCtx_outOfBand (s : Session F) (ce : ClientEvent) :
    (s.newResponseCtx env ce.response).outOfBand = asksOutOfBand env ce := by
  unfold newResponseCtx asksOutOfBand
  by_cases hraw : ce.response = []
  · simp [hraw]
  · cases hcfg : env.decode.responseConfig ce.response with
    | none => simp [hraw]
    | some cfg => simp [hraw, overrideCtx_settings]

theorem emitResponse_outOfBand (s : Session F) (respID : String) {plan : Plan}
    (h : plan.rc.outOfBand = true) : (s.emitResponse env respID plan).1.idleAt = s.idleAt := by
  obtain ⟨n, heap, _, heq⟩ := extends_buildLadder env s respID plan
  unfold emitResponse
  simp only [h, Bool.not_true, Bool.and_false, Bool.false_eq_true, if_false, finishBurst, if_true]
  rw [heq]

theorem createResponse_outOfBand (s : Session F) (h : asksOutOfBand env ce = true) :
    (s.createResponse env ce).1.idleAt = s.idleAt := by
  rw [← newResponseCtx_outOfBand env s] at h
  have hprep : ∀ {respID : String} {s' : Session F},
      s.Prepared (s.newResponseCtx env ce.response) respID s' → s'.idleAt = s.idleAt := by
    intro respID s' hp
    obtain ⟨n, calls, gens, _, rfl⟩ := hp.eq
    exact if_pos h
  rcases s.createResponse_cases env ce with ⟨e, hr⟩ | ⟨-, hr⟩
  · rw [hr]
  · generalize s.createResponse env ce = r at hr
    cases hr with
    | failed hp =>
      simp only [failedResponse, h, if_true]
      exact hprep hp
    | emitted hp => exact (emitResponse_outOfBand env _ _ h).trans (hprep hp)

theorem cancelInflight_idleAt (s : Session F) (inf : Inflight F) (reason : CancelReason) :
    (s.cancelInflight inf reason).1.idleAt = 0 := by
  obtain ⟨_, _, -, -, -, hs⟩ := s.cancelInflight_cases inf reason
  exact hs.calm.idle.elim (fun h => h) fun h => h

theorem tickLoop_early (now : Int) (queue : Events F) (s : Session F)
    (inf : Inflight F) (hdue : inf.nextAt ≤ now)
    (hearly : now < inf.nextAt + (queue.length - 1) * s.paceInterval) :
    (tickLoop env now queue s inf).1.idleAt = s.idleAt ∨ (tickLoop env now queue s inf).1.idleAt = 0 := by
  induction queue generalizing s inf with
  | nil => exact .inl rfl
  | cons ev rest ih =>
    have hidle := (emitQueued_calm s { inf with queue := rest } ev).idle
    have hpace := (emitQueued_quiet s { inf with queue := rest } ev).settled.pace
    have hnext := (emitQueued_cases s { inf with queue := rest } ev).tracks.nextAt
    unfold tickLoop
    dsimp only
    split
    next hrest =>
      subst hrest
      simp only [List.length_cons, List.length_nil, zero_add, Nat.cast_one, sub_self, zero_mul,
        add_zero] at hearly
      omega
    · split
      · exact hidle
      next hlate =>
        have hstep : now < inf.nextAt + s.paceInterval + (rest.length - 1) * s.paceInterval := by
          calc now < inf.nextAt + (rest.length + 1 - 1) * s.paceInterval := hearly
            _ = inf.nextAt + s.paceInterval + (rest.length - 1) * s.paceInterval := by ring
        rcases ih _ { (s.emitQueued { inf with queue := rest } ev).2.1 with
            nextAt := (s.emitQueued { inf with queue := rest } ev).2.1.nextAt +
              (s.emitQueued { inf with queue := rest } ev).1.paceInterval } (not_lt.mp hlate)
            (by rw [hnext, hpace]; exact hstep) with h | h
        · rw [h]
          exact hidle
        · exact .inr h

theorem drainQueue_early (s : Session F) {now : Int} (h : s.lastDue now = false) :
    (s.drainQueue env now).1.idleAt = s.idleAt ∨ (s.drainQueue env now).1.idleAt = 0 := by
  unfold drainQueue
  split
  · exact .inl rfl
  next inf hinf =>
    split
    · exact .inl rfl
    next hdue =>
      rw [lastDue, hinf] at h
      exact tickLoop_early env now inf.queue s inf (not_lt.mp hdue) (by simpa using h)

/-! ## Requests -/

theorem cancelResponse_undisturbed (ce : ClientEvent) (hs : s.Undisturbed)
    (hp : s.speaking = true → s.idleAvailable = true → s.pendingResponse = false) :
    (s.cancelResponse env ce).1.Undisturbed := by
  unfold cancelResponse
  dsimp only
  split
  · exact hs
  next inf hinf =>
    have hc := cancelInflight_quiet hinf .clientCancelled
    have hidle : (s.cancelInflight inf .clientCancelled).1.Undisturbed := fun _ =>
      cancelInflight_idleAt s inf .clientCancelled
    split
    · split
      next hpend =>
        refine (createResponse_quiet env _ {}).undisturbed (by exact hidle) ?_
        rintro ⟨hon, hav⟩
        have hpend' : s.pendingResponse = true :=
          (cancelInflight_calm s inf .clientCancelled).pending hpend
        have hquiet := hp (speaking_congr hc.settled.vad ▸ hon) (hc.settled.idleAvailable ▸ hav)
        exact absurd hpend' (by simp [hquiet])
      · exact hidle
    · exact hs

theorem not_started_of_plain (h : ∀ e ∈ out, e.isPlain = true) (t : Int) (id : String) :
    .speechStarted t id ∉ out :=
  fun hmem => absurd (h _ hmem) (by simp [Event.isPlain])

variable [GoFloat F]

theorem refreshVAD_undisturbed (hs : s.Undisturbed) : (s.refreshVAD env).Undisturbed := by
  have hidle : (s.refreshVAD env).idleAt = s.idleAt ∨ (s.refreshVAD env).idleAt = 0 := by
    obtain ⟨t, b, heq, ht⟩ := refreshVAD_eq env s
    rwa [heq]
  refine hs.mono (fun hon => ?_) hidle
  cases hv' : (s.refreshVAD env).vad with
  | none => exact absurd hon (by simp [speaking, hv'])
  | some v' =>
    have hact : v'.speechActive = true := by simpa [speaking, hv'] using hon
    rcases refreshVAD_vad env hv' with ⟨v, hv, ha, _⟩ | ⟨ha, _⟩
    · simp [speaking, hv, ← ha, hact]
    · exact absurd hact (by simp [ha])

theorem updateSession_undisturbed (raw : Raw) (hs : s.Undisturbed) :
    (s.updateSession env raw).1.Undisturbed := by
  rcases updateSession_eq env s raw with ⟨e, h⟩ | ⟨_, cfg, obj, h⟩ | ⟨_, cfg, obj, h⟩
  · rw [h]
    exact hs
  · rw [h]
    exact hs
  · rw [h]
    exact refreshVAD_undisturbed (s := { s with cfg := cfg }) env hs

theorem vadReset_speaking (s : Session F) : s.vadReset.speaking = false := by
  rw [vadReset]
  cases s.vad <;> rfl

theorem vadEndOfTurn_speaking (s : Session F) (v : VadState F) :
    (s.vadEndOfTurn env v).1.speaking = false := by
  unfold vadEndOfTurn
  dsimp only
  split
  · exact vadReset_speaking _
  next hoff =>
    rw [speaking_congr (autoRespond_quiet env _ v.cfg).settled.vad]
    simpa [speaking] using hoff

theorem vadStart_idleAt (h : s.idleAt = 0) (v : VadState F) (startMs ms : F) :
    (s.vadStart v startMs ms).1.idleAt = 0 := by
  have hstart := s.vadStart_cases v startMs ms
  generalize s.vadStart v startMs ms = r at hstart
  cases hstart with
  | beside => exact h
  | cancels => exact cancelInflight_idleAt _ _ _

theorem commitItem_idleAt (s : Session F) : (s.commitItem env).1.idleAt = 0 := by
  have h := s.commitItem_cases env
  generalize s.commitItem env = r at h
  cases h with
  | mk => rfl

theorem handling_undisturbed (env : Env F) : Handling env (F := F)
    (fun s _ s' => s.Undisturbed → s'.Undisturbed) (fun s _ s' => s.Undisturbed → s'.Undisturbed) where
  trans h₁ h₂ hs := h₂ (h₁ hs)
  weaken h := h
  aside ha _ hs := hs.still ha
  before ha h hs := h (hs.still ha)
  start _ _ _ _ _ _ _ := vadStart_idleAt rfl _ _ _
  stop _ _ _ _ hon := absurd hon (by rw [vadEndOfTurn_speaking]; simp)
  commit s _ _ := commitItem_idleAt env s
  clear s _ hon := absurd hon (by rw [show s.clearBuffer.1.speaking = false from vadReset_speaking _]; simp)
  truncate s id hs :=
    hs.carry (truncateInflightItem_quiet s id).settled.vad (truncateInflightItem_calm s id).idle

theorem requestResponse_undisturbed (ce : ClientEvent) (hs : s.Undisturbed)
    (hp : s.speaking = true → s.idleAvailable = true → asksOutOfBand env ce = true) :
    (s.requestResponse env ce).1.Undisturbed := by
  unfold requestResponse
  split
  · exact hs
  · split
    · exact hs
    · set s₁ : Session F := { s with idleFired := false } with hs₁
      have hquiet := createResponse_quiet env s₁ ce
      have hund : s₁.Undisturbed := hs
      by_cases hon : s₁.speaking = true ∧ s₁.idleAvailable = true
      · refine hund.carry hquiet.settled.vad (.inl ?_)
        exact createResponse_outOfBand env s₁ (hp hon.1 hon.2)
      · exact hquiet.undisturbed hund hon

theorem dispatch_undisturbed (ce : ClientEvent) (hs : s.Undisturbed)
    (hp : s.Patient env (.handle ce)) : (s.dispatch env ce).1.Undisturbed := by
  have P := handling_undisturbed env (F := F)
  refine P.dispatch ?_ ?_ ?_ ?_ ?_ hs
  · exact fun _ => updateSession_undisturbed env _
  · exact fun _ => P.createItem fun s₁ it id after _ _ _ _ hs₁ =>
      hs₁.carry (addItem_quiet env s₁ it id after).settled.vad (addItem_calm env s₁ it id after).idle
  · exact fun htype hs => requestResponse_undisturbed env ce hs fun hon hav => (hp hon hav).1 htype
  · refine fun hs => hs.carry (deleteItem_quiet env s _).settled.vad (.inl ?_)
    unfold deleteItem
    split <;> rfl
  · exact fun htype hs => cancelResponse_undisturbed env ce hs fun hon hav => (hp hon hav).2 htype

/-! ## Ticks -/

theorem advance_undisturbed (hq : s.PlainQueue) (now : Int) (hs : s.Undisturbed)
    (hp : s.Patient env (.tick now)) :
    (s.advance env now).1.Undisturbed ∧
      ((s.advance env now).2.any Event.isTimeout = true → s.speaking = false) := by
  set s₁ : Session F := { s with lastClientEventID := "" } with hs₁
  have hdrain := drainQueue_quiet env s₁ now
  have hund : (s₁.drainQueue env now).1.Undisturbed := by
    by_cases hon : s₁.speaking = true ∧ s₁.idleAvailable = true
    · exact Undisturbed.carry (s := s₁) hs hdrain.settled.vad (drainQueue_early env s₁ (hp hon.1 hon.2))
    · exact hdrain.undisturbed hs hon
  unfold advance
  dsimp only
  rcases fireIdle_cases env (s₁.drainQueue env now).1 now with
    ⟨hout, hkeep⟩ | ⟨_, harmed, _, hvad, hspent, _⟩
  · refine ⟨?_, ?_⟩
    · rcases hkeep with h | h
      · rw [h]
        exact hund
      · rw [h]
        exact fun _ => rfl
    · rw [hout, List.append_nil, (hdrain.untimed hq).any_eq_false]
      simp
  · refine ⟨fun _ => hspent.2, fun _ => ?_⟩
    by_contra hon
    have hon₁ : (s₁.drainQueue env now).1.speaking = true := by
      rw [speaking_congr hdrain.settled.vad]
      exact (Bool.eq_true_of_not_eq_false hon : s.speaking = true)
    exact harmed (hund hon₁)

theorem call_undisturbed (hq : s.PlainQueue) (hs : s.Undisturbed) (hp : s.Patient env c) :
    (s.call env c).1.Undisturbed ∧ (s.timesOut env c = true → s.speaking = false) := by
  have hstamp : ∀ (t : Session F) out, t.Undisturbed → (t.stamp out).1.Undisturbed := fun t out ht =>
    ht.carry (extends_stamp t out).settled.vad (extends_stamp t out).calm.idle
  cases c with
  | greeting =>
    refine ⟨hstamp _ _ hs, ?_⟩
    rw [timesOut, call, greeting, timesOut_stamp]
    simp [Event.isTimeout]
  | handle ce =>
    set s₁ : Session F := { s with lastClientEventID := ce.eventID } with hs₁
    refine ⟨hstamp _ _ (dispatch_undisturbed (s := s₁) env ce hs hp), ?_⟩
    rw [timesOut, call, handle, timesOut_stamp, (dispatch_untimed (s := s₁) env hq ce).any_eq_false]
    simp
  | tick now =>
    obtain ⟨hund, htime⟩ := advance_undisturbed env hq now hs hp
    refine ⟨hstamp _ _ hund, ?_⟩
    rw [timesOut, call, tick, timesOut_stamp]
    exact htime

/-! ## Speech cycles -/

/-- A turn stays on until it is stopped, cleared or committed. -/
theorem handling_pending (env : Env F) : Handling env (F := F)
    (fun s _ s' => s'.pendingItem = s.pendingItem)
    (fun s out s' => s.Cyclic → ∀ id, s.pendingItem = some id →
      s'.pendingItem = some id ∨ out.any Event.endsSpeech = true) := by
  have hsame : ∀ {s s' : Session F}, s.Still s' → s'.pendingItem = s.pendingItem := by
    intro s s' h
    have hturn := h.turn
    cases hv : s.vad <;> cases hv' : s'.vad <;> simp_all [pendingItem]
  refine ⟨fun h₁ h₂ => h₂.trans h₁, fun h _ id hid => .inl (h.trans hid), fun ha _ => hsame ha, ?_, ?_,
    ?_, ?_, ?_, ?_⟩
  · exact fun ha h hcyc id hid => h (ha.cyclic hcyc) id ((hsame ha).trans hid)
  · -- a turn is on, so none starts
    intro s v _ _ _ hv hoff hcyc id hid
    obtain ⟨v₀, hv₀, rfl, hne⟩ := pendingItem_eq_some hid
    obtain rfl : v₀ = v := Option.some.inj (hv₀.symm.trans hv)
    exact absurd ((hcyc v₀ hv).mpr hne) (by simp [hoff])
  · intro s v _ _ _ _ _ _
    unfold vadEndOfTurn
    dsimp only
    split <;> simp [Event.endsSpeech, Event.cue]
  · intro s _ _ _
    obtain ⟨_, _, _, hout, _⟩ := commitItem_commits env s
    exact .inr (by simp [hout, Event.endsSpeech, Event.cue])
  · exact fun s _ _ _ => .inr (by simp [clearBuffer, Event.endsSpeech, Event.cue])
  · exact fun s id => pendingItem_congr (truncateInflightItem_quiet s id).settled.vad

theorem dispatch_pending (hcyc : s.Cyclic) (hpend : s.pendingItem = some id) :
    (s.dispatch env ce).1.pendingItem = some id ∨
      (s.dispatch env ce).2.any Event.endsSpeech = true ∨ ce.type = .sessionUpdate := by
  by_cases htype : ce.type = .sessionUpdate
  · exact .inr (.inr htype)
  · refine ((handling_pending env).dispatch ?_ ?_ ?_ ?_ ?_ hcyc id hpend).imp_right .inl
    · exact fun h => absurd h htype
    · exact fun _ => pendingItem_congr (createItem_settled env s ce).vad
    · exact fun _ => pendingItem_congr (requestResponse_settled env s ce).vad
    · exact pendingItem_congr (deleteItem_quiet env s _).settled.vad
    · exact fun _ _ _ h => .inl ((pendingItem_congr (cancelResponse_quiet env s ce).settled.vad).trans h)

theorem call_started (hq : s.PlainQueue)
    (h : ∃ e ∈ (s.call env c).2, e.event = .speechStarted t id) :
    (s.call env c).1.pendingItem = some id := by
  -- the start is among the events before they are written
  have hmem : ∀ {u : Session F} {out : Events F},
      (∃ e ∈ (u.stamp out).2, e.event = .speechStarted t id) → .speechStarted t id ∈ out := by
    rintro u out ⟨e, he, hev⟩
    have hin : e.event ∈ (u.stamp out).2.map (·.event) := List.mem_map_of_mem he
    rw [stamp_events, hev] at hin
    obtain ⟨ev, hev', heq⟩ := List.mem_map.mp hin
    cases ev <;> simp only [Event.map, reduceCtorEq, Event.speechStarted.injEq] at heq
    obtain ⟨rfl, rfl⟩ := heq
    exact hev'
  cases c with
  | greeting => exact absurd (hmem h) (by simp)
  | handle ce =>
    obtain ⟨t', id', heq, hpend⟩ :=
      dispatch_heralds env { s with lastClientEventID := ce.eventID } ce hq _ (hmem h) rfl
    obtain ⟨-, rfl⟩ := Event.speechStarted.inj heq
    exact (pendingItem_congr (extends_stamp _ _).settled.vad).trans hpend
  | tick now =>
    exfalso
    have hdrain := drainQueue_quiet env { s with lastClientEventID := "" } now
    have hadvance : .speechStarted t id ∈ (s.advance env now).2 := hmem h
    rw [advance] at hadvance
    rcases List.mem_append.mp hadvance with hin | hin
    · exact not_started_of_plain (hdrain.plain hq).2 t id hin
    · rcases fireIdle_cases env (drainQueue env { s with lastClientEventID := "" } now).1 now with
        ⟨hout, _⟩ | ⟨_, _, _, _, _, ms, prev, tid, rest, hout, hrest⟩
      · rw [hout] at hin
        cases hin
      · rw [hout] at hin
        simp only [List.mem_cons, reduceCtorEq, false_or] at hin
        exact not_started_of_plain hrest t id hin

theorem call_pending (hcyc : s.Cyclic) (hpend : s.pendingItem = some id) :
    (s.call env c).1.pendingItem = some id ∨ (s.call env c).2.any (·.event.endsSpeech) = true ∨
      ∃ ce, c = .handle ce ∧ ce.type = .sessionUpdate := by
  have hstamp : ∀ (t : Session F) out, t.pendingItem = some id → (t.stamp out).1.pendingItem = some id :=
    fun t out ht => (pendingItem_congr (extends_stamp t out).settled.vad).trans ht
  cases c with
  | greeting => exact .inl (hstamp _ _ hpend)
  | handle ce =>
    rcases dispatch_pending (s := { s with lastClientEventID := ce.eventID }) env hcyc hpend with
      h | h | h
    · exact .inl (hstamp _ _ h)
    · refine .inr (.inl ?_)
      rw [call, handle, stamp_any _ _ Event.endsSpeech fun f ev => by cases ev <;> rfl]
      exact h
    · exact .inr (.inr ⟨ce, rfl, h⟩)
  | tick now =>
    refine .inl (hstamp _ _ ((pendingItem_congr ?_).trans hpend))
    have hdrain := (drainQueue_quiet env { s with lastClientEventID := "" } now).settled.vad
    rcases fireIdle_cases env (drainQueue env { s with lastClientEventID := "" } now).1 now with
      ⟨_, h | h⟩ | ⟨_, _, _, h, _⟩
    · exact (congrArg Session.vad h).trans hdrain
    · exact (congrArg Session.vad h).trans hdrain
    · exact h.trans hdrain

end Session

variable [GoFloat F]

open Session

/-- In a run in which no response is asked for and none ends while a turn is on and
the timeout is available, a call that times out finds no turn on; so between a
detected start and the stop, clear or commit that ends its cycle (or a change of the
turn detection that abandons it) there is no timeout. -/
theorem idle_spares_speech (env : Env F) (setup : Setup) (calls : List Call)
    (hpatient : ∀ pre c post, calls = pre ++ c :: post →
      ((setup.session env).run env pre).Patient env c) :
    (∀ pre c post, calls = pre ++ c :: post → ((setup.session env).run env pre).timesOut env c = true →
      ((setup.session env).run env pre).speaking = false) ∧
    ∀ pre c mid c' post t id, calls = pre ++ c :: mid ++ c' :: post →
      (∃ e ∈ (((setup.session env).run env pre).call env c).2, e.event = .speechStarted t id) →
      (∀ m d m', mid = m ++ d :: m' → ∀ s, (setup.session env).run env (pre ++ c :: m) = s →
        (s.call env d).2.any (·.event.endsSpeech) = false ∧
          ((∃ ce, d = .handle ce ∧ ce.type = .sessionUpdate) →
            (s.call env d).1.pendingItem = s.pendingItem)) →
      ((setup.session env).run env (pre ++ c :: mid)).timesOut env c' = false := by
  have hinv : ∀ cs, ((setup.session env).run env cs).PlainQueue ∧ ((setup.session env).run env cs).Cyclic := by
    intro cs
    obtain ⟨f, _, hf⟩ := run_turns env cs (setup.follows env)
    exact ⟨hf.plain, hf.cyclic⟩
  have hstart : (setup.session env).Undisturbed := fun _ => (setup.fresh env).idle
  have htimes : ∀ pre c post, calls = pre ++ c :: post →
      ((setup.session env).run env pre).timesOut env c = true →
      ((setup.session env).run env pre).speaking = false := by
    intro pre c post heq
    have hund : ((setup.session env).run env pre).Undisturbed := by
      refine run_invariant env (Q := fun s d => s.PlainQueue ∧ s.Patient env d)
        (fun s d hs hd => (call_undisturbed env hd.1 hs hd.2).1) ?_ hstart
      rintro p d q rfl
      exact ⟨(hinv p).1, hpatient p d (q ++ c :: post) (by rw [heq]; simp)⟩
    exact (call_undisturbed env (hinv pre).1 hund (hpatient pre c post heq)).2
  refine ⟨htimes, ?_⟩
  intro pre c mid c' post t id heq hstarted hon
  have hrun : ∀ m, (setup.session env).run env (pre ++ c :: m) =
      (((setup.session env).run env pre).call env c).1.run env m := fun m =>
    Session.run_append env _ pre (c :: m)
  -- the announced id is pending after the start and stays so
  have hpend : ((setup.session env).run env (pre ++ c :: mid)).pendingItem = some id := by
    rw [hrun]
    refine run_invariant env (P := fun s => s.pendingItem = some id)
      (Q := fun s d => s.PlainQueue ∧ s.Cyclic ∧ (s.call env d).2.any (·.event.endsSpeech) = false ∧
        ((∃ ce, d = .handle ce ∧ ce.type = .sessionUpdate) →
          (s.call env d).1.pendingItem = s.pendingItem))
      ?_ ?_ (call_started env (hinv pre).1 hstarted)
    · rintro s d hs ⟨hq, hcyc, hends, hupdate⟩
      rcases call_pending env hcyc (c := d) hs with h | h | h
      · exact h
      · rw [hends] at h
        cases h
      · exact (hupdate h).trans hs
    · rintro m d m' rfl
      rw [← hrun]
      exact ⟨(hinv _).1, (hinv _).2, hon m d m' rfl _ rfl⟩
  have hspeak : ((setup.session env).run env (pre ++ c :: mid)).speaking = true := by
    obtain ⟨v, hv, hid, hne⟩ := pendingItem_eq_some hpend
    have hact := ((hinv (pre ++ c :: mid)).2 v hv).mpr (by rw [hid]; exact hne)
    simp [speaking, hv, hact]
  by_contra htime
  have hoff := htimes (pre ++ c :: mid) c' post heq (by simpa using htime)
  exact absurd hspeak (by simp [hoff])

/-! ## A response asked for in the middle of a turn -/

section
open Lib

/-- Speech starts, the client asks for a response and waits; then it clears the buffer. -/
def spokenCalls : List Call :=
  [.handle { type := .sessionUpdate, session := idlePayload },
    .handle { type := .audioAppend, audio := Utf8.bytes "!" },
    .handle { type := .responseCreate },
    .tick 5000000001,
    .handle { type := .audioClear }]

def spokenEarlier : List Call :=
  [.handle { type := .sessionUpdate, session := idlePayload },
    .handle { type := .audioAppend, audio := Utf8.bytes "!" },
    .handle { type := .audioClear },
    .handle { type := .responseCreate },
    .tick 5000000001]

end

/-- The timeout comes between the start and the clear, with the turn still on. -/
theorem idle_interrupts_speech :
    (idleSession.trace idleEnv spokenCalls).filterMap (·.event.cue) =
        [.started "item_sess_1_2", .timeout "item_sess_1_19", .committed "item_sess_1_19", .cleared] ∧
      (idleSession.run idleEnv (spokenCalls.take 3)).pendingItem = some "item_sess_1_2" := by
  decide +kernel

theorem idle_spares_speech_cleared :
    (idleSession.run idleEnv (spokenEarlier.take 4)).timesOut idleEnv (.tick 5000000001) = true ∧
      (idleSession.run idleEnv (spokenEarlier.take 4)).speaking = false := by
  have htime : (idleSession.run idleEnv (spokenEarlier.take 4)).timesOut idleEnv (.tick 5000000001) = true := by
    decide +kernel
  have hpatient : ∀ i : Fin spokenEarlier.length,
      (idleSession.run idleEnv (spokenEarlier.take i)).Patient idleEnv (spokenEarlier.get i) := by
    decide +kernel
  refine ⟨htime, ?_⟩
  exact (idle_spares_speech idleEnv { id := "sess_1" } spokenEarlier
    (Session.forall_call_iff.mpr hpatient)).1 _ _ [] rfl htime

end MockAgents.Realtime
