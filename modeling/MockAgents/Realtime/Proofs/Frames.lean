import MockAgents.Realtime.Proofs.Ids
/-!
# What each primitive leaves alone

`Extends` and `Reindexed` say once what building a ladder and indexing items can
change; every other field follows by reading the record.
-/

namespace MockAgents.Realtime

open List Session

variable {F : Type} (env : Env F)

namespace Session

variable (s : Session F) {s' s₁ s₂ s₃ : Session F}

/-! ## Minting and allocating -/

/-- Ids were minted and item maps allocated; nothing else changed. -/
def Extends (s s' : Session F) : Prop :=
  ∃ n h, s.counter ≤ n ∧ s' = { s with counter := n, heap := s.heap ++ h }

theorem Extends.refl : s.Extends s :=
  ⟨s.counter, [], le_rfl, by simp⟩

theorem Extends.trans (h₁ : s₁.Extends s₂) (h₂ : s₂.Extends s₃) : s₁.Extends s₃ := by
  obtain ⟨n, h, hn, rfl⟩ := h₁
  obtain ⟨m, k, hm, rfl⟩ := h₂
  exact ⟨m, h ++ k, hn.trans hm, by simp⟩

theorem Extends.minted {s : Session F} (h : s.Extends s') {id : String} (hid : s.Minted id) :
    s'.Minted id := by
  obtain ⟨n, heap, hn, heq⟩ := h
  exact hid.mono (by rw [heq]) (by rw [heq]; exact hn)

theorem extends_nextID (k : IDKind) : s.Extends (s.nextID k).1 :=
  ⟨_, [], (s.nextID_lt k).le, by simp [nextID]⟩

theorem extends_alloc (id : String) (data : ItemData) : s.Extends (s.alloc id data).1 :=
  ⟨s.counter, [data], le_rfl, rfl⟩

theorem extends_appendFunctionCallLadder (respID : String) (tc : ToolCallSpec)
    (i : Nat) (rc : ResponseCtx) (prev : Option String) :
    s.Extends (s.appendFunctionCallLadder respID tc i rc prev).1 := by
  unfold appendFunctionCallLadder
  exact (((extends_nextID s .fc).trans (extends_nextID ..)).trans (extends_alloc ..)).trans
    (extends_alloc _ (s.nextID .fc).2 _)

theorem extends_appendToolLadders (respID : String) (rc : ResponseCtx) (tcs : List ToolCallSpec)
    (i : Nat) (prev : Option String) (s : Session F) :
    s.Extends (appendToolLadders respID rc tcs i prev s).1 := by
  induction tcs generalizing i prev s with
  | nil => exact .refl s
  | cons tc tcs ih =>
    unfold appendToolLadders
    exact (extends_appendFunctionCallLadder ..).trans (ih ..)

theorem extends_buildLadder (respID : String) (plan : Plan) :
    s.Extends (s.buildLadder env respID plan).1 := by
  unfold buildLadder
  by_cases hm : plan.emitMessage = true
  · simp only [hm, if_true]
    refine Extends.trans ?_ (extends_appendToolLadders ..)
    unfold appendMessageLadder
    exact ((extends_nextID s .msg).trans (extends_alloc ..)).trans
      (extends_alloc _ (s.nextID .msg).2 _)
  · simp only [hm, Bool.false_eq_true, if_false]
    exact extends_appendToolLadders ..

/-- What the ladders of a response are made of.  One out of band stays off the conversation,
and audio is heard only where `heard` allows it. -/
inductive OnLadder (respID : String) (oob : Bool) (heard : Prop) : Event F ItemRef → Prop
  | carried (i : Nat) {lev : LadderEvent ItemRef}
      (h : ∀ id delta, lev = .outputAudioDelta id delta → heard) :
      OnLadder respID oob heard (.ladder respID i lev)
  | added (h : oob = false) (prev : Option String) (item : ItemRef) :
      OnLadder respID oob heard (.itemAdded prev item)
  | done (h : oob = false) (prev : Option String) (item : ItemRef) :
      OnLadder respID oob heard (.itemDone prev item)

section Ladders
variable {respID : String} {heard : Prop} {e : Event F ItemRef}

theorem onLadder_item {i : Nat} {oob : Bool} {prev : Option String} {a b : ItemRef}
    {body : List (LadderEvent ItemRef)} (hbody : ∀ id delta, .outputAudioDelta id delta ∈ body → heard)
    (he : e ∈ itemLadder respID i oob prev a b body) : OnLadder respID oob heard e := by
  simp only [itemLadder, mem_append, mem_singleton, mem_map] at he
  rcases he with (((rfl | he) | ⟨lev, hlev, rfl⟩) | rfl) | he
  · exact .carried i (by simp)
  · cases oob <;> simp at he
    exact he ▸ .added rfl prev a
  · exact .carried i fun id delta h => hbody id delta (h ▸ hlev)
  · exact .carried i (by simp)
  · cases oob <;> simp at he
    exact he ▸ .done rfl prev b

theorem onLadder_tools (rc : ResponseCtx) (tcs : List ToolCallSpec) (i : Nat) (prev : Option String)
    (s : Session F) (he : e ∈ (appendToolLadders respID rc tcs i prev s).2.1) :
    OnLadder respID rc.outOfBand heard e := by
  induction tcs generalizing i prev s with
  | nil => simp [appendToolLadders] at he
  | cons tc tcs ih =>
    rcases mem_append.mp he with h | h
    · exact onLadder_item (by simp [functionCallBody]) h
    · exact ih _ _ _ h

theorem onLadder_build (plan : Plan) (he : e ∈ (s.buildLadder env respID plan).2.1) :
    OnLadder respID plan.rc.outOfBand (plan.emitMessage = true ∧ plan.rc.textOnly = false) e := by
  unfold buildLadder at he
  by_cases hmsg : plan.emitMessage = true
  · simp only [hmsg, if_true] at he
    rcases mem_append.mp he with h | h
    · refine onLadder_item (fun id delta hmem => ⟨hmsg, ?_⟩) h
      unfold messageBody at hmem
      split at hmem
      · simp at hmem
      · simpa using ‹¬ plan.rc.textOnly = true›
    · exact onLadder_tools _ _ _ _ _ h
  · simp only [hmsg, Bool.false_eq_true, if_false] at he
    exact onLadder_tools _ _ _ _ _ he

end Ladders

theorem stamp_counter (out : Events F) : ∃ n, (s.stamp out).1 = { s with counter := n } := by
  induction out generalizing s with
  | nil => exact ⟨s.counter, rfl⟩
  | cons ev out ih =>
    obtain ⟨n, hn⟩ := ih (s.nextID .event).1
    exact ⟨n, by rw [stamp, hn]; rfl⟩

theorem extends_stamp (out : Events F) : s.Extends (s.stamp out).1 := by
  induction out generalizing s with
  | nil => exact .refl s
  | cons ev out ih => exact (extends_nextID s .event).trans (ih _)

theorem stamp_events (out : Events F) :
    (s.stamp out).2.map (·.event) = out.map (Event.map s.view) := by
  induction out generalizing s with
  | nil => rfl
  | cons ev out ih =>
    have hview : (s.nextID .event).1.view = s.view := rfl
    rw [stamp, map_cons, map_cons, ih, hview]

/-- What does not depend on the items is written as it was emitted. -/
theorem map_stamp {α : Type} (out : Events F) (p : ∀ {ι : Type}, Event F ι → α)
    (hp : ∀ (f : ItemRef → Item) ev, p (ev.map f) = p ev) :
    (s.stamp out).2.map (fun e => p e.event) = out.map p := by
  have h := congrArg (List.map p) (s.stamp_events out)
  simpa only [map_map, Function.comp_def, hp] using h

/-! ## Indexing -/

/-- The item index and the history changed; nothing else did. -/
def Reindexed (s s' : Session F) : Prop :=
  ∃ items order last history,
    s' = { s with items := items, itemOrder := order, lastItemID := last, history := history }

theorem Reindexed.refl : s.Reindexed s := ⟨_, _, _, _, rfl⟩

theorem Reindexed.trans (h₁ : s₁.Reindexed s₂) (h₂ : s₂.Reindexed s₃) : s₁.Reindexed s₃ := by
  obtain ⟨i, o, l, h, rfl⟩ := h₁
  obtain ⟨i', o', l', h', rfl⟩ := h₂
  exact ⟨i', o', l', h', rfl⟩

theorem reindexed_rememberItem (item : ItemRef) : s.Reindexed (s.rememberItem item) := by
  unfold rememberItem
  split <;> exact ⟨_, _, _, _, rfl⟩

theorem reindexed_joinTail (id : String) : s.Reindexed (s.joinTail id) :=
  ⟨_, _, _, _, rfl⟩

theorem reindexed_joinEmittedItem (item : ItemRef) : s.Reindexed (s.joinEmittedItem item) := by
  unfold joinEmittedItem
  split
  · exact (reindexed_rememberItem s item).trans (reindexed_joinTail ..)
  · exact reindexed_rememberItem s item

theorem reindexed_joinItems (items : List ItemRef) :
    s.Reindexed (items.foldl joinEmittedItem s) := by
  induction items generalizing s with
  | nil => exact .refl s
  | cons item items ih => exact (reindexed_joinEmittedItem s item).trans (ih _)

/-! ## Storing items -/

/-- The index, the history and the stored items changed; nothing else did. -/
def Shelved (s s' : Session F) : Prop :=
  ∃ items order last history heap, s' = { s with
    items := items, itemOrder := order, lastItemID := last, history := history, heap := heap }

theorem Shelved.refl : s.Shelved s := ⟨_, _, _, _, _, rfl⟩

theorem Shelved.trans (h₁ : s₁.Shelved s₂) (h₂ : s₂.Shelved s₃) : s₁.Shelved s₃ := by
  obtain ⟨i, o, l, h, p, rfl⟩ := h₁
  obtain ⟨i', o', l', h', p', rfl⟩ := h₂
  exact ⟨i', o', l', h', p', rfl⟩

theorem Reindexed.shelved {s : Session F} (h : s.Reindexed s') : s.Shelved s' := by
  obtain ⟨i, o, l, h, rfl⟩ := h
  exact ⟨i, o, l, h, _, rfl⟩

theorem storeTurn_frame (id : String) (transcript : Field) (audio : Lib.Bytes) :
    s.Shelved (s.storeTurn id transcript audio).1 := by
  unfold storeTurn
  dsimp only
  split
  · exact Shelved.trans ⟨_, _, _, _, _, rfl⟩ (reindexed_rememberItem ..).shelved
  · exact Shelved.trans ⟨_, _, _, _, _, rfl⟩ (reindexed_rememberItem ..).shelved

/-! ## The idle timer -/

theorem armIdleTimer_eq :
    s.armIdleTimer env = s ∨ (s.isTranscription = false ∧
        ∃ t, s.armIdleTimer env = { s with idleAt := t, clockReads := s.clockReads + 1 }) := by
  unfold armIdleTimer
  split
  · exact .inl rfl
  · split
    · exact .inl rfl
    next h =>
      simp only [Bool.or_eq_true, not_or, Bool.not_eq_true] at h
      exact .inr ⟨h.1.2, _, rfl⟩

/-! ## Creating a response -/

/-- The state in which a response speaks: its id was minted and the generator was asked. -/
structure Prepared (s : Session F) (rc : ResponseCtx) (respID : String) (s' : Session F) : Prop where
  eq : ∃ n calls gens, s.counter ≤ n ∧ s' = { s with
    idleAt := if rc.outOfBand then s.idleAt else 0
    counter := n, lastToolCalls := calls, genCalls := gens }
  new : ∀ id, s.Minted id → respID ≠ id
  minted : s'.Minted respID

/-- How a response that passed the guards goes out: as a failure, or as a ladder. -/
inductive Answers (env : Env F) (s : Session F) (rc : ResponseCtx) :
    Session F × List (Event F ItemRef) → Prop
  | failed {s' : Session F} {respID : String} (hp : s.Prepared rc respID s') (msg : Lib.Bytes) :
    Answers env s rc (s'.failedResponse env respID msg rc)
  | emitted {s' : Session F} {respID : String} (hp : s.Prepared rc respID s') (base : List Message)
      (content : Lib.Bytes) (calls : List ToolCallSpec) :
    Answers env s rc (s'.emitResponse env respID (planResponse rc base content calls))

theorem suppressToolCalls_eq (rc : ResponseCtx) (base : List Message) (calls : List ToolCallSpec) :
    ∃ last, (s.suppressToolCalls rc base calls).1 = { s with lastToolCalls := last } := by
  unfold suppressToolCalls
  split
  · exact ⟨s.lastToolCalls, rfl⟩
  · split <;> exact ⟨_, rfl⟩

theorem runResponse_cases (rc : ResponseCtx) : Answers env s rc (s.runResponse env rc) := by
  have hstart : (if rc.outOfBand then s else { s with idleAt := 0 }) =
      { s with idleAt := if rc.outOfBand then s.idleAt else 0 } := by
    cases rc.outOfBand <;> rfl
  unfold runResponse
  rw [hstart]
  set s₁ : Session F := { s with idleAt := if rc.outOfBand then s.idleAt else 0 } with hs₁
  have hp : ∀ last, s.Prepared rc (s₁.nextID .resp).2
      { (s₁.nextID .resp).1 with lastToolCalls := last, genCalls := s.genCalls + 1 } := fun last =>
    ⟨⟨_, last, _, (s₁.nextID_lt .resp).le, rfl⟩, fun _ hid => s₁.nextID_ne_minted .resp hid,
      s₁.nextID_minted .resp⟩
  dsimp only
  split
  · exact .failed (hp s.lastToolCalls) _
  · exact .failed (hp s.lastToolCalls) _
  next resp _ =>
    obtain ⟨last, hlast⟩ := suppressToolCalls_eq ((s₁.nextID .resp).1.generate env (engineHistory
      rc.instructions (if rc.hasInput then rc.input else (s₁.nextID .resp).1.history))).1 rc
      (if rc.hasInput then rc.input else (s₁.nextID .resp).1.history) resp.toolCalls
    rw [hlast]
    exact .emitted (hp last) _ _ _

/-- A request is refused, or answered where nothing is in the way of its response. -/
theorem createResponse_cases (ce : ClientEvent) :
    (∃ e, s.createResponse env ce = (s, [.error e])) ∨
      ((s.newResponseCtx env ce.response).outOfBand = false → s.inflight = none ∧
        (s.respondedWithAudio = true → (s.newResponseCtx env ce.response).voice = s.effectiveVoice)) ∧
      Answers env s (s.newResponseCtx env ce.response) (s.createResponse env ce) := by
  unfold createResponse
  dsimp only
  split
  · exact .inl ⟨_, rfl⟩
  · split
    · exact .inl ⟨_, rfl⟩
    next hvoice =>
      split
      · exact .inl ⟨_, rfl⟩
      next hbusy =>
        refine .inr ⟨fun hmain => ⟨by simpa [hmain] using hbusy, fun hr => ?_⟩, runResponse_cases env s _⟩
        simpa [hmain, hr] using hvoice

/-! ## The session as it is set up -/

/-- Nothing has been said: no item, no history, nothing in flight, queued or armed. -/
structure Fresh (s : Session F) : Prop where
  items : s.items = ∅
  itemOrder : s.itemOrder = []
  lastItemID : s.lastItemID = ""
  history : s.history = []
  inflight : s.inflight = none
  pending : s.pendingResponse = false
  idle : s.idleAt = 0

theorem applyConfig_eq (raw : Raw) : ∃ cfg, s.applyConfig env raw = { s with cfg := cfg } := by
  unfold applyConfig
  split
  · exact ⟨s.cfg, rfl⟩
  · split
    · exact ⟨s.cfg, rfl⟩
    · exact ⟨_, rfl⟩

variable [GoFloat F]
variable {calls : List Call}

theorem refreshVAD_eq : ∃ t b, s.refreshVAD env = { s with
      vad := (vadConfigOf env s.cfg.turnDetection).map (VadState.reconfigure s.vad)
      idleAt := t, idleFired := b } ∧ (t = s.idleAt ∨ t = 0) := by
  unfold refreshVAD
  dsimp only
  split
  · exact ⟨s.idleAt, s.idleFired, rfl, .inl rfl⟩
  · exact ⟨0, false, rfl, .inr rfl⟩

/-- A new configuration keeps the turn of the detector or starts a silent one. -/
theorem refreshVAD_vad {s : Session F} {v' : VadState F} (h : (s.refreshVAD env).vad = some v') :
    (∃ v, s.vad = some v ∧ v'.speechActive = v.speechActive ∧ v'.pendingItemID = v.pendingItemID) ∨
      (v'.speechActive = false ∧ v'.pendingItemID = "") := by
  have hmap : (vadConfigOf env s.cfg.turnDetection).map (VadState.reconfigure s.vad) = some v' := by
    obtain ⟨t, b, heq, -⟩ := refreshVAD_eq env s
    rwa [heq] at h
  obtain ⟨cfg, _, rfl⟩ := Option.map_eq_some_iff.mp hmap
  unfold VadState.reconfigure
  cases hv : s.vad with
  | none => exact .inr ⟨rfl, rfl⟩
  | some v =>
    dsimp only
    split
    · exact .inl ⟨v, rfl, rfl, rfl⟩
    · exact .inr ⟨rfl, rfl⟩

theorem refreshVAD_pending :
    (s.refreshVAD env).pendingItem = s.pendingItem ∨ (s.refreshVAD env).pendingItem = none := by
  cases hv' : (s.refreshVAD env).vad with
  | none => exact .inr (by rw [pendingItem, hv'])
  | some v' =>
    rcases refreshVAD_vad env hv' with ⟨v, hv, _, hp⟩ | ⟨_, hp⟩
    · exact .inl (by simp only [pendingItem, hv, hv', hp])
    · exact .inr (by simp [pendingItem, hv', hp])

theorem updateSession_eq (raw : Raw) :
    (∃ e, s.updateSession env raw = (s, [.error e])) ∨
      ((s.updateSession env raw).1.cfg.turnDetection = s.cfg.turnDetection ∧
        ∃ cfg obj, s.updateSession env raw = ({ s with cfg := cfg }, [.sessionUpdated obj])) ∨
      ((s.updateSession env raw).1.cfg.turnDetection ≠ s.cfg.turnDetection ∧
        ∃ cfg obj, s.updateSession env raw = (refreshVAD env { s with cfg := cfg }, [.sessionUpdated obj])) := by
  obtain ⟨cfg, hcfg⟩ := applyConfig_eq env s raw
  unfold updateSession
  split
  · exact .inl ⟨_, rfl⟩
  · rw [hcfg]
    dsimp only
    split
    next hne =>
      refine .inr (.inr ⟨?_, cfg, _, rfl⟩)
      obtain ⟨t, b, heq, -⟩ := refreshVAD_eq env { s with cfg := cfg }
      rwa [heq]
    next heq =>
      exact .inr (.inl ⟨not_not.mp heq, cfg, _, rfl⟩)

/-! ## Runs -/

theorem run_append (calls more : List Call) :
    s.run env (calls ++ more) = (s.run env calls).run env more := foldl_append

theorem run_concat (calls : List Call) (c : Call) :
    s.run env (calls ++ [c]) = ((s.run env calls).call env c).1 := by
  rw [run_append]
  rfl

/-- What every call preserves under a condition on the state before it holds after a
run whose calls all meet the condition. -/
theorem run_invariant {s : Session F} {P : Session F → Prop} {Q : Session F → Call → Prop}
    (hstep : ∀ s c, P s → Q s c → P (s.call env c).1)
    (hcond : ∀ pre c post, calls = pre ++ c :: post → Q (s.run env pre) c) (hs : P s) :
    P (s.run env calls) := by
  induction calls generalizing s with
  | nil => exact hs
  | cons c calls ih =>
    refine ih ?_ (hstep s c hs (hcond [] c calls rfl))
    rintro pre c' post rfl
    exact hcond (c :: pre) c' post rfl

/-- A condition on every call of a list and the calls before it, checked by position. -/
theorem forall_call_iff {Q : List Call → Call → Prop} :
    (∀ pre c post, calls = pre ++ c :: post → Q pre c) ↔
      ∀ i : Fin calls.length, Q (calls.take i) (calls.get i) := by
  constructor
  · intro h i
    refine h _ _ (calls.drop (i + 1)) ?_
    rw [get_eq_getElem, ← drop_eq_getElem_cons, take_append_drop]
  · rintro h pre c post rfl
    have hi := h ⟨pre.length, by simp⟩
    simpa using hi

/-- An event of a run is an event of one of its calls. -/
theorem trace_split {s : Session F} {pre post : List (ServerEvent F)}
    {e : ServerEvent F} (h : s.trace env calls = pre ++ e :: post) :
    ∃ cs c cs' p q, calls = cs ++ c :: cs' ∧ ((s.run env cs).call env c).2 = p ++ e :: q ∧
      pre = s.trace env cs ++ p := by
  induction calls generalizing s pre with
  | nil => exact absurd h (by simp [trace])
  | cons c calls ih =>
    rcases append_eq_append_iff.mp h with ⟨as, hpre, hrest⟩ | ⟨cs, hout, hrest⟩
    · obtain ⟨cs, c', cs', p, q, rfl, hcall, rfl⟩ := ih hrest
      refine ⟨c :: cs, c', cs', p, q, rfl, hcall, ?_⟩
      rw [hpre, trace, append_assoc]
    · cases cs with
      | nil =>
        have htail : (s.call env c).1.trace env calls = [] ++ e :: post := by simpa using hrest.symm
        obtain ⟨cs, c', cs', p, q, rfl, hcall, hp⟩ := ih htail
        refine ⟨c :: cs, c', cs', p, q, rfl, hcall, ?_⟩
        rw [append_nil] at hout
        rw [trace, append_assoc, ← hp, append_nil, hout]
      | cons e' q =>
        obtain ⟨rfl, _⟩ := cons.inj hrest
        exact ⟨[], c, calls, pre, q, rfl, hout, rfl⟩

end Session

variable [GoFloat F]

/-- What holds of a session in which nothing happened, and is kept by a new configuration, a new
detector and the flags of the transport, holds of the session that is set up. -/
theorem Setup.session_induction (setup : Setup) {J : Session F → Prop}
    (hstart : ∀ s : Session F, s.Fresh → s.vad = none → J s)
    (hfields : ∀ (s : Session F) cfg t b p, J s →
      J { s with cfg := cfg, expiresAt := t, strict := b, paceInterval := p })
    (hvad : ∀ s, J s → J (s.refreshVAD env)) : J (setup.session env) := by
  have happly : ∀ (s : Session F) raw, J s → J (s.applyConfig env raw) := by
    intro s raw h
    obtain ⟨cfg, heq⟩ := applyConfig_eq env s raw
    rw [heq]
    exact hfields s cfg _ _ _ h
  have hseed : ∀ (s : Session F) raw, J s → J (s.seedConfig env raw) := by
    intro s raw h
    unfold seedConfig
    dsimp only
    split
    · exact hfields _ _ _ _ _ (happly s raw h)
    · split
      · exact hvad _ (happly s raw h)
      · exact happly s raw h
  have htype : ∀ (s : Session F) t, J s → J (s.setSessionType t) := by
    intro s t h
    unfold setSessionType
    split
    · exact h
    · exact hfields s _ _ _ _ h
  have hnew : J (new env setup.id setup.model) := by
    unfold new
    exact hvad _ (hstart _ ⟨rfl, rfl, rfl, rfl, rfl, rfl, rfl⟩ rfl)
  exact hfields _ _ _ _ _ (hseed _ _ (htype _ _ (hfields _ _ _ _ _ hnew)))

theorem Setup.fresh (setup : Setup) : (setup.session env).Fresh := by
  refine setup.session_induction env (fun _ h _ => h) (fun s cfg t b p h => ?_) fun s h => ?_
  · exact ⟨h.items, h.itemOrder, h.lastItemID, h.history, h.inflight, h.pending, h.idle⟩
  · obtain ⟨t, b, heq, ht⟩ := s.refreshVAD_eq env
    rw [heq]
    exact ⟨h.items, h.itemOrder, h.lastItemID, h.history, h.inflight, h.pending, ht.elim (·.trans h.idle) fun ht => ht⟩

theorem Setup.silent (setup : Setup) (v : VadState F)
    (hv : (setup.session env).vad = some v) : v.speechActive = false ∧ v.pendingItemID = "" := by
  refine setup.session_induction env
    (J := fun s => ∀ v, s.vad = some v → v.speechActive = false ∧ v.pendingItemID = "") ?_ ?_ ?_ v hv
  · exact fun s _ hnone v hv => absurd (hnone.symm.trans hv) (by simp)
  · exact fun _ _ _ _ _ h => h
  · intro s hs v' hv'
    rcases refreshVAD_vad env hv' with ⟨v, hv, ha, hp⟩ | h
    · rw [ha, hp]
      exact hs v hv
    · exact h

theorem Setup.pendingItem (setup : Setup) : (setup.session env).pendingItem = none := by
  unfold Session.pendingItem
  cases hv : (setup.session env).vad with
  | none => rfl
  | some v => simp [(setup.silent env v hv).2]

end MockAgents.Realtime
