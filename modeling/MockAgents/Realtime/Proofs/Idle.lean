import MockAgents.Realtime.Proofs.Turns
/-!
# The idle timeout

The timeout fires at a tick that finds a deadline past and nothing in flight.  Once
it has fired, the deadline stays unarmed until the user is heard from again.
-/

namespace MockAgents.Realtime

open Lib.Lifecycle (OpenIn Ledger)

variable {F ι κ : Type}
variable (env : Env F) (s : Session F)

def Event.isTimeout : Event F ι → Bool
  | .timeoutTriggered .. => true
  | _ => false

def Event.isCommitted : Event F ι → Bool
  | .bufferCommitted .. => true
  | _ => false

theorem Event.isTimeout_map (f : ι → κ) (ev : Event F ι) : (ev.map f).isTimeout = ev.isTimeout := by
  cases ev <;> rfl

/-- A timeout, or the start of a turn. -/
def Event.isHerald : Event F ι → Bool
  | .timeoutTriggered .. | .speechStarted .. => true
  | _ => false

theorem Event.not_herald_of_plain {ev : Event F ι} (h : ev.isPlain = true) : ev.isHerald = false := by
  cases ev <;> first | rfl | exact absurd h (by simp [isPlain])

theorem Event.not_timeout_of_plain {ev : Event F ι} (h : ev.isPlain = true) : ev.isTimeout = false := by
  cases ev <;> first | rfl | exact absurd h (by simp [isPlain])

namespace Session

/-! ## Events as written -/

theorem stamp_any (out : Events F) (p : ∀ {ι : Type}, Event F ι → Bool)
    (hp : ∀ (f : ItemRef → Item) ev, p (ev.map f) = p ev) :
    (s.stamp out).2.any (fun e => p e.event) = out.any p := by
  have h := congrArg (List.any · p) (s.stamp_events out)
  simpa only [List.any_map, Function.comp_def, hp] using h

/-! ## Nothing is emitted twice -/

def Untimed (out : List (Event F ItemRef)) : Prop := ∀ e ∈ out, e.isTimeout = false

variable {out : Events F} {s : Session F}

theorem Quiet.untimed {s s' : Session F} (h : Quiet s out s') (hq : s.PlainQueue) : Untimed out :=
  fun e he => Event.not_timeout_of_plain ((h.plain hq).2 e he)

theorem untimed_plain (h : ∀ e ∈ out, e.isPlain = true) : Untimed out :=
  fun e he => Event.not_timeout_of_plain (h e he)

theorem timesOut_stamp (s : Session F) (out : Events F) :
    (s.stamp out).2.any (·.event.isTimeout) = out.any Event.isTimeout :=
  s.stamp_any out Event.isTimeout fun f ev => Event.isTimeout_map f ev

theorem Untimed.any_eq_false (h : Untimed out) : out.any Event.isTimeout = false := by
  simpa [Untimed] using h

def Subdued (s : Session F) (out : List (Event F ItemRef)) (s' : Session F) : Prop :=
  s.PlainQueue → s'.PlainQueue ∧ ∀ e ∈ out, e.isHerald = false

def Heralds (s : Session F) (out : List (Event F ItemRef)) (s' : Session F) : Prop :=
  s.PlainQueue → ∀ e ∈ out, e.isHerald = true →
    ∃ t id, e = .speechStarted t id ∧ s'.pendingItem = some id

section
variable {s₁ s₂ s₃ s' : Session F} {o₁ o₂ : Events F}

theorem Subdued.trans (h₁ : Subdued s₁ o₁ s₂) (h₂ : Subdued s₂ o₂ s₃) : Subdued s₁ (o₁ ++ o₂) s₃ := by
  intro hq
  obtain ⟨hq₂, ho₁⟩ := h₁ hq
  obtain ⟨hq₃, ho₂⟩ := h₂ hq₂
  exact ⟨hq₃, fun e he => (List.mem_append.mp he).elim (ho₁ e) (ho₂ e)⟩

theorem Subdued.heralds (h : Subdued s out s') : Heralds s out s' :=
  fun hq e he hherald => absurd hherald (by simp [(h hq).2 e he])

theorem Subdued.of_inflight (hi : s'.inflight = s.inflight) (hout : ∀ e ∈ out, e.isHerald = false) :
    Subdued s out s' :=
  fun hq => ⟨by rwa [PlainQueue, queue, hi], hout⟩

theorem Quiet.subdued (h : Quiet s out s') : Subdued s out s' := fun hq =>
  ⟨(h.plain hq).1, fun e he => Event.not_herald_of_plain ((h.plain hq).2 e he)⟩

end

def Spent (s : Session F) : Prop := s.idleFired = true ∧ s.idleAt = 0

theorem Quiet.spent {s s' : Session F} (h : Quiet s out s') (hs : s.Spent) : s'.Spent := by
  refine ⟨h.fired.trans hs.1, ?_⟩
  rcases h.idle with hi | hi | hi
  · exact hi.trans hs.2
  · exact hi
  · exact absurd hs.1 (by simp [hi.1])

variable [GoFloat F]

theorem commitBuffer_eq_self (s : Session F)
    (h : (s.commitBuffer env).2.any Event.isCommitted = false) : (s.commitBuffer env).1 = s := by
  revert h
  unfold commitBuffer
  split
  · exact fun _ => rfl
  · split
    · exact fun _ => rfl
    · obtain ⟨prev, id, rest, hout, _⟩ := commitItem_commits env s
      rw [hout]
      intro h
      simp [Event.isCommitted] at h

theorem vadEndOfTurn_committed (hbuf : s.audioBuffer = true) (v : VadState F) :
    (s.vadEndOfTurn env v).2.any Event.isCommitted = true := by
  obtain ⟨prev, id, rest, hout, _⟩ := commitItem_commits env { s with vadCommitting := true }
  unfold vadEndOfTurn
  dsimp only
  rw [commitBuffer_buffered env hbuf, hout]
  split <;> simp [Event.isCommitted]

theorem appendAudio_spent {audio : Lib.Bytes} (hsilent : s.hearsSpeech env audio = false)
    (hcommit : (s.appendAudio env audio).2.any Event.isCommitted = false) (hs : s.Spent) :
    (s.appendAudio env audio).1.Spent := by
  obtain ⟨ms, buf, h⟩ := appendAudio_cases env s audio
  rw [hsilent] at h
  generalize s.appendAudio env audio = r at h hcommit
  cases h with
  | deaf => exact hs
  | waits => exact hs
  | stop hv hon hsame =>
    rw [vadEndOfTurn_committed env (by rfl)] at hcommit
    cases hcommit

/-! ## Handling an event -/

theorem vadStart_pending (s : Session F) (v : VadState F) (startMs ms : F) :
    (s.vadStart v startMs ms).1.pendingItem = some (s.nextID .item).2 := by
  have hpend : ∀ t : Session F, ∀ w : VadState F, t.vad = some w →
      w.pendingItemID = (s.nextID .item).2 → t.pendingItem = some (s.nextID .item).2 := by
    intro t w hv hw
    simp [pendingItem, hv, hw, s.nextID_ne_empty .item]
  have h := s.vadStart_cases v startMs ms
  generalize s.vadStart v startMs ms = r at h
  cases h with
  | beside => exact hpend _ _ rfl rfl
  | cancels hinf => exact hpend _ _ (cancelInflight_quiet hinf _).settled.vad rfl

/-- Whatever is emitted, a start is of the turn that is then on, and there is no timeout. -/
theorem handling_heralds (env : Env F) : Handling env (F := F) Subdued Heralds := by
  have hcommit : ∀ s : Session F, Gives (Subdued s) (s.commitItem env) := by
    intro s hq
    obtain ⟨prev, id, rest, hout, hrest, hc⟩ := commitItem_commits env s
    rw [hout]
    exact ⟨hc.plain hq, List.forall_mem_cons.mpr ⟨rfl, fun e he => Event.not_herald_of_plain (hrest e he).1⟩⟩
  refine ⟨Subdued.trans, Subdued.heralds, ?_, ?_, ?_, ?_, fun s => (hcommit s).heralds, ?_, ?_⟩
  · exact fun ha hout => .of_inflight ha.inflight fun e he =>
      Event.not_herald_of_plain (Event.isPlain_of_isReply (hout e he))
  · exact fun ha h hq => h (by rwa [PlainQueue, queue, ha.inflight])
  · intro s v v' startMs ms _ _ hq e he hherald
    obtain ⟨audioMs, rest, hout, hrest⟩ :=
      vadStart_out (s := { s with idleAt := 0, idleFired := false }) hq v' startMs ms
    rw [hout] at he
    rcases List.mem_cons.mp he with rfl | he
    · exact ⟨_, _, rfl, vadStart_pending ..⟩
    · exact absurd hherald (by simp [Event.not_herald_of_plain (hrest e he)])
  · intro s v _ _ _
    refine (vadEndOfTurn_of ?_ hcommit Subdued.trans ?_ ?_ ?_ ?_ s v).heralds
    · exact fun s e => .of_inflight rfl (by simp [Event.isHerald])
    · exact fun s ms id => .of_inflight rfl (by simp [Event.isHerald])
    · exact fun s => .of_inflight rfl (by simp)
    · exact fun s => .of_inflight rfl (by simp)
    · exact fun s cfg => (autoRespond_quiet env s cfg).subdued
  · intro s
    have hclear : Subdued s s.clearBuffer.2 s.clearBuffer.1 :=
      .of_inflight rfl (by simp [clearBuffer, Event.isHerald])
    exact hclear.heralds
  · exact fun s id => (truncateInflightItem_quiet s id).subdued

theorem dispatch_heralds (s : Session F) (ce : ClientEvent) :
    Gives (Heralds s) (s.dispatch env ce) := by
  have P := handling_heralds env (F := F)
  refine P.dispatch ?_ ?_ ?_ ?_ ?_
  · intro _
    rcases updateSession_eq env s ce.session with ⟨e, h⟩ | ⟨_, cfg, obj, h⟩ | ⟨_, cfg, obj, h⟩ <;> rw [h]
    · exact .of_inflight rfl (by simp [Event.isHerald])
    · exact .of_inflight rfl (by simp [Event.isHerald])
    · obtain ⟨t, b, heq, -⟩ := refreshVAD_eq env { s with cfg := cfg }
      exact .of_inflight (by rw [heq]) (by simp [Event.isHerald])
  · exact fun _ => P.createItem fun s₁ it id after _ _ _ _ => (addItem_quiet env s₁ it id after).subdued
  · exact fun _ => P.requestResponse (createResponse_quiet env _ ce).subdued
  · exact (deleteItem_quiet env s _).subdued
  · exact fun _ => (cancelResponse_quiet env s ce).subdued.heralds

theorem dispatch_untimed (hq : s.PlainQueue) (ce : ClientEvent) :
    Untimed (s.dispatch env ce).2 := by
  intro e he
  cases htime : e.isTimeout with
  | false => rfl
  | true =>
    have hherald : e.isHerald = true := by
      cases e <;> first | rfl | exact absurd htime (by simp [Event.isTimeout])
    obtain ⟨t, id, rfl, -⟩ := dispatch_heralds env s ce hq e he hherald
    exact absurd htime (by simp [Event.isTimeout])

def Heard (env : Env F) (s : Session F) (ce : ClientEvent) : Prop :=
  ce.type = .itemCreate ∨ ce.type = .responseCreate ∨
    (ce.type = .audioAppend ∧ s.hearsSpeech env ce.audio = true) ∨
    (s.dispatch env ce).2.any Event.isCommitted = true

theorem dispatch_spent {ce : ClientEvent} (hquiet : ¬ s.Heard env ce)
    (hcfg : (s.dispatch env ce).1.cfg.turnDetection = s.cfg.turnDetection) (hs : s.Spent) :
    (s.dispatch env ce).1.Spent := by
  simp only [Heard, not_or, not_and, Bool.not_eq_true] at hquiet
  obtain ⟨hitem, hresp, hspeech, hcommit⟩ := hquiet
  revert hcommit hcfg
  unfold dispatch
  split <;> intro hcfg hcommit
  · rcases updateSession_eq env s ce.session with ⟨e, h⟩ | ⟨_, cfg, obj, h⟩ | ⟨hne, _⟩
    · rw [h]
      exact hs
    · rw [h]
      exact hs
    · exact absurd hcfg hne
  next htype =>
    exact appendAudio_spent env (hspeech htype) hcommit hs
  · exact hs
  · rw [commitBuffer_eq_self env s hcommit]
    exact hs
  next htype =>
    exact absurd htype hitem
  next htype =>
    exact absurd htype hresp
  · exact (retrieveItem_quiet env s _).spent hs
  · exact (deleteItem_quiet env s _).spent hs
  · exact (truncateItem_quiet env s ce).spent hs
  · exact (cancelResponse_quiet env s ce).spent hs
  · exact hs

/-! ## Ticks -/

/-- A timeout is announced, commits a silent turn and lets the model answer it. -/
theorem idleTimeout_fires (hon : idleConfigured s.vad = true) :
    ∃ ms prev id rest, (s.idleTimeout env).2 = .timeoutTriggered ms id :: .bufferCommitted prev id :: rest ∧
      Quiet { s with idleFired := true } rest (s.idleTimeout env).1 := by
  unfold idleTimeout
  split
  next hv =>
    exact absurd hon (by simp [hv, idleConfigured])
  next v hv =>
    rw [hv] at hon
    simp only [idleConfigured, Bool.and_eq_true, decide_eq_true_eq] at hon
    rw [if_neg (by simp [hon.1, hon.2])]
    set s₁ : Session F := { s with idleFired := true } with hs₁
    refine ⟨_, _, _, conversationItemEvents _ _ ++ _, rfl, ?_⟩
    refine Quiet.trans ?_ (createResponse_quiet env _ {})
    refine Quiet.before ?_ (.ofPlain _ (by simp [conversationItemEvents, Event.isPlain]))
    exact (newConversationItem_quiet s₁).before (storedTurn_quiet ..)

theorem idleTimeout_off (hoff : idleConfigured s.vad = false) : s.idleTimeout env = (s, []) := by
  unfold idleTimeout
  cases hv : s.vad with
  | none => rfl
  | some v =>
    rw [hv] at hoff
    simp only [idleConfigured, Bool.and_eq_false_iff, decide_eq_false_iff_not, not_lt] at hoff
    dsimp only
    rw [if_pos (by simpa using hoff)]

/-- A timeout comes from a configured detector with nothing in flight, and only one;
without it, a deadline at most was dropped. -/
theorem fireIdle_cases (s : Session F) (now : Int) :
    ((s.fireIdle env now).2 = [] ∧
      ((s.fireIdle env now).1 = s ∨ (s.fireIdle env now).1 = { s with idleAt := 0 })) ∨
      (s.inflight = none ∧ s.idleAt ≠ 0 ∧ idleConfigured s.vad = true ∧
        (s.fireIdle env now).1.vad = s.vad ∧ (s.fireIdle env now).1.Spent ∧
        ∃ ms prev id rest, (s.fireIdle env now).2 =
            .timeoutTriggered ms id :: .bufferCommitted prev id :: rest ∧
          ∀ e ∈ rest, e.isPlain = true) := by
  unfold fireIdle
  split
  next hfire =>
    simp only [Bool.and_eq_true, Option.isNone_iff_eq_none, decide_eq_true_eq] at hfire
    obtain ⟨⟨hfree, harmed⟩, _⟩ := hfire
    cases hon : idleConfigured s.vad with
    | false =>
      have hoff := idleTimeout_off (s := { s with idleAt := 0 }) env hon
      rw [hoff]
      exact .inl ⟨rfl, .inr rfl⟩
    | true =>
      obtain ⟨ms, prev, id, rest, hout, hquiet⟩ := idleTimeout_fires (s := { s with idleAt := 0 }) env hon
      refine .inr ⟨hfree, harmed, rfl, hquiet.settled.vad, hquiet.spent ⟨rfl, rfl⟩, ms, prev, id, _,
        hout, ?_⟩
      exact (hquiet.plain (by simp [PlainQueue, queue, hfree])).2
  · exact .inl ⟨rfl, .inl rfl⟩

/-! ## Calls -/

def timesOut (env : Env F) (s : Session F) (c : Call) : Bool :=
  (s.call env c).2.any (·.event.isTimeout)

/-- A speech append, an accepted commit, or a request for an item or a response. -/
def UserActive (env : Env F) (s : Session F) : Call → Prop
  | .handle ce => Heard env { s with lastClientEventID := ce.eventID } ce
  | _ => False

theorem timesOut_cases (hq : s.PlainQueue) {c : Call} (h : s.timesOut env c = true) :
    ∃ now, c = .tick now ∧ (drainQueue env { s with lastClientEventID := "" } now).1.inflight = none ∧
      (drainQueue env { s with lastClientEventID := "" } now).1.idleAt ≠ 0 ∧
      idleConfigured s.vad = true ∧ (s.call env c).1.Spent ∧
      ∃ ms id rest, (s.advance env now).2 =
          (drainQueue env { s with lastClientEventID := "" } now).2 ++ .timeoutTriggered ms id :: rest ∧
        Untimed (drainQueue env { s with lastClientEventID := "" } now).2 ∧ Untimed rest := by
  cases c with
  | greeting =>
    rw [timesOut, call, greeting, timesOut_stamp] at h
    exact absurd h (by simp [Event.isTimeout])
  | handle ce =>
    have hcalm := dispatch_untimed (s := { s with lastClientEventID := ce.eventID }) env hq ce
    rw [timesOut, call, handle, timesOut_stamp, hcalm.any_eq_false] at h
    cases h
  | tick now =>
    refine ⟨now, rfl, ?_⟩
    have hdrain := drainQueue_quiet env { s with lastClientEventID := "" } now
    have hcalm := hdrain.untimed hq
    rw [timesOut, call, tick, timesOut_stamp, advance] at h
    rw [call, advance]
    dsimp only at h ⊢
    set s₁ := (drainQueue env { s with lastClientEventID := "" } now).1 with hs₁
    rcases fireIdle_cases env s₁ now with
      ⟨hout, _⟩ | ⟨hfree, harmed, hon, _, hspent, ms, prev, id, rest, hout, hrest⟩
    · rw [hout, List.append_nil, hcalm.any_eq_false] at h
      cases h
    · refine ⟨hfree, harmed, ?_, (extends_stamp _ _).quiet.spent hspent, ms, id, _, by rw [hout],
        hcalm, List.forall_mem_cons.mpr ⟨rfl, untimed_plain hrest⟩⟩
      rwa [hdrain.settled.vad] at hon

theorem timesOut_count (hq : s.PlainQueue) (c : Call) :
    (s.call env c).2.countP (·.event.isTimeout) ≤ 1 := by
  cases h : s.timesOut env c with
  | false =>
    rw [timesOut, List.any_eq_false] at h
    rw [List.countP_eq_zero.mpr h]
    exact Nat.zero_le 1
  | true =>
    obtain ⟨now, rfl, _, _, _, _, ms, id, rest, hout, hcalm, hrest⟩ := timesOut_cases env hq h
    have hzero : ∀ {out : Events F}, Untimed out → out.countP Event.isTimeout = 0 := by
      intro out hout
      exact List.countP_eq_zero.mpr fun e he => by simp [hout e he]
    have hmap : ((s.call env (.tick now)).2.map (·.event)).countP Event.isTimeout =
        (s.advance env now).2.countP Event.isTimeout := by
      rw [call, tick, stamp_events, List.countP_map]
      congr 1
      exact funext fun e => Event.isTimeout_map _ e
    rw [List.countP_map] at hmap
    refine (Eq.le hmap).trans ?_
    rw [hout, List.countP_append, List.countP_cons, hzero hcalm, hzero hrest]
    simp [Event.isTimeout]

theorem Spent.not_timesOut (hs : s.Spent) (env : Env F) (hq : s.PlainQueue) (c : Call) :
    s.timesOut env c = false := by
  by_contra h
  obtain ⟨now, rfl, _, harmed, _⟩ := timesOut_cases env hq (by simpa using h)
  have hdrain := drainQueue_quiet env { s with lastClientEventID := "" } now
  exact harmed (hdrain.spent hs).2

theorem call_spent {c : Call} (hquiet : ¬ s.UserActive env c)
    (hcfg : (s.call env c).1.cfg.turnDetection = s.cfg.turnDetection) (hs : s.Spent) :
    (s.call env c).1.Spent := by
  cases c with
  | greeting => exact (extends_stamp s _).quiet.spent hs
  | handle ce =>
    set s₁ : Session F := { s with lastClientEventID := ce.eventID } with hs₁
    have hcfg₁ : (s₁.dispatch env ce).1.cfg.turnDetection = s₁.cfg.turnDetection := by
      rw [call, handle] at hcfg
      rwa [(extends_stamp (s₁.dispatch env ce).1 (s₁.dispatch env ce).2).settled.cfg] at hcfg
    exact (extends_stamp _ _).quiet.spent (dispatch_spent (s := s₁) env hquiet hcfg₁ hs)
  | tick now =>
    have hdrain := drainQueue_quiet env { s with lastClientEventID := "" } now
    rcases fireIdle_cases env (drainQueue env { s with lastClientEventID := "" } now).1 now with
      ⟨_, hkeep⟩ | ⟨_, harmed, _⟩
    · have hfire : (fireIdle env (drainQueue env { s with lastClientEventID := "" } now).1 now).1.Spent := by
        rcases hkeep with h | h
        · rw [h]
          exact hdrain.spent hs
        · rw [h]
          exact ⟨(hdrain.spent hs).1, rfl⟩
      exact (extends_stamp _ _).quiet.spent hfire
    · exact absurd (hdrain.spent hs).2 harmed

end Session

variable [GoFloat F]

open Session

theorem Setup.plainQueue (setup : Setup) (calls : List Call) :
    ((setup.session env).run env calls).PlainQueue := by
  obtain ⟨f, _, hf⟩ := run_turns env calls (setup.follows env)
  exact hf.plain

theorem append_cons_unique {α : Type} {p : α → Bool} {l₁ l₂ l₃ l₄ : List α} {a b : α}
    (h : l₁ ++ a :: l₂ = l₃ ++ b :: l₄) (ha : p a = true) (h₃ : ∀ x ∈ l₃, p x = false)
    (h₄ : ∀ x ∈ l₄, p x = false) : l₁ = l₃ := by
  rcases List.append_eq_append_iff.mp h with ⟨as, rfl, hrest⟩ | ⟨cs, rfl, hrest⟩
  · cases as with
    | nil => simp
    | cons x as =>
      obtain ⟨rfl, _⟩ := List.cons.inj hrest
      exact absurd ha (by simp [h₃ a (by simp)])
  · cases cs with
    | nil => simp
    | cons x cs =>
      obtain ⟨_, rfl⟩ := List.cons.inj hrest
      exact absurd ha (by simp [h₄ a (by simp)])

theorem timeout_not_open (setup : Setup) {calls : List Call} {pre post : List (ServerEvent F)}
    {e : ServerEvent F} (htrace : (setup.session env).trace env calls = pre ++ e :: post)
    (he : e.event.isTimeout = true) (id : String) (main : Bool) :
    ¬ OpenIn (pre.map fun e => e.event.mark) id main := by
  obtain ⟨cs, c, _, p, q, _, hcall, rfl⟩ := trace_split env htrace
  set s := (setup.session env).run env cs with hs
  have htimes : s.timesOut env c = true := by
    rw [timesOut, hcall, List.any_append, List.any_cons, he]
    simp
  obtain ⟨now, rfl, hfree, _, _, _, ms, tid, rest, hout, hcalm, hrest⟩ :=
    timesOut_cases env (setup.plainQueue env cs) htimes
  -- the events of the call before the timeout are those of the drain
  have hp : p.map (·.event) =
      (drainQueue env { s with lastClientEventID := "" } now).2.map (Event.map (s.advance env now).1.view) := by
    have hmap : (s.call env (.tick now)).2.map (·.event) =
        (s.advance env now).2.map (Event.map (s.advance env now).1.view) := stamp_events _ _
    have huntimed : ∀ {out : Events F}, Untimed out →
        ∀ x ∈ out.map (Event.map (s.advance env now).1.view), x.isTimeout = false := by
      intro out h x hx
      obtain ⟨y, hy, rfl⟩ := List.mem_map.mp hx
      rw [Event.isTimeout_map]
      exact h y hy
    rw [hcall, hout, List.map_append, List.map_append] at hmap
    exact append_cons_unique hmap he (huntimed hcalm) (huntimed hrest)
  have hmarks : p.map (fun e => e.event.mark) =
      (drainQueue env { s with lastClientEventID := "" } now).2.map Event.mark := by
    have h := congrArg (List.map Event.mark) hp
    simpa only [List.map_map, Function.comp_def, Event.mark_map] using h
  obtain ⟨L, hr, hL⟩ := tracks_run env cs (setup.tracks env)
  have hL₁ : Tracks { s with lastClientEventID := "" } L := ⟨hL.opened, hL.minted, hL.queue⟩
  obtain ⟨L', hr', hL'⟩ := sim_drainQueue env _ now L hL₁
  have hall : Ledger.empty.run (((setup.session env).trace env cs ++ p).map fun e => e.event.mark) =
      some L' := by
    rw [List.map_append, Ledger.run_append, hr, Option.bind_some, hmarks, hr']
  have hempty : L'.opened = [] := by
    rw [hL'.opened, (slot_eq_none_iff _).mpr hfree]
    rfl
  intro hopen
  have hmem := ((Ledger.describes_run Ledger.describes_empty hall).opened id main).mpr hopen
  rw [hempty] at hmem
  cases hmem

/-- A call emits at most one timeout, and only a tick of a session configured for
server VAD with an idle timeout does; no response is open where one is emitted; and
between two calls that emit one, with no change of the turn detection, there is a
call of an active user. -/
theorem idle_once_per_silence (env : Env F) (setup : Setup) (calls : List Call) :
    (∀ pre c post, calls = pre ++ c :: post → ∀ s, (setup.session env).run env pre = s →
      (s.call env c).2.countP (·.event.isTimeout) ≤ 1 ∧
      (s.timesOut env c = true → (∃ now, c = .tick now) ∧ idleConfigured s.vad = true)) ∧
    (∀ pre e post, (setup.session env).trace env calls = pre ++ e :: post →
      e.event.isTimeout = true → ∀ id main, ¬ OpenIn (pre.map fun e => e.event.mark) id main) ∧
    ∀ pre c mid c' post, calls = pre ++ c :: mid ++ c' :: post →
      (∀ m d m', mid = m ++ d :: m' →
        ((setup.session env).run env (pre ++ c :: m ++ [d])).cfg.turnDetection =
          ((setup.session env).run env (pre ++ c :: m)).cfg.turnDetection) →
      ((setup.session env).run env pre).timesOut env c = true →
      ((setup.session env).run env (pre ++ c :: mid)).timesOut env c' = true →
      ∃ m d m', mid = m ++ d :: m' ∧ ((setup.session env).run env (pre ++ c :: m)).UserActive env d := by
  refine ⟨?_, ?_, ?_⟩
  · rintro pre c post rfl s rfl
    have hq := setup.plainQueue env pre
    refine ⟨timesOut_count env hq c, fun h => ?_⟩
    obtain ⟨now, rfl, _, _, hon, _⟩ := timesOut_cases env hq h
    exact ⟨⟨now, rfl⟩, hon⟩
  · intro pre e post htrace he id main
    exact timeout_not_open env setup htrace he id main
  · rintro pre c mid c' post rfl hcfg hc hc'
    by_contra hnone
    have hquiet : ∀ m d m', mid = m ++ d :: m' →
        ¬ ((setup.session env).run env (pre ++ c :: m)).UserActive env d :=
      fun m d m' heq hactive => hnone ⟨m, d, m', heq, hactive⟩
    obtain ⟨_, _, _, _, _, hspent, _⟩ := timesOut_cases env (setup.plainQueue env pre) hc
    have hrun : ∀ m, (setup.session env).run env (pre ++ c :: m) =
        (((setup.session env).run env pre).call env c).1.run env m := fun m =>
      Session.run_append env _ pre (c :: m)
    have hmid : ((setup.session env).run env (pre ++ c :: mid)).Spent := by
      rw [hrun]
      refine run_invariant env (Q := fun s d => s.PlainQueue ∧ ¬ s.UserActive env d ∧
        (s.call env d).1.cfg.turnDetection = s.cfg.turnDetection)
        (fun s d hs hd => call_spent env hd.2.1 hd.2.2 hs) ?_ hspent
      rintro m d m' rfl
      refine ⟨?_, ?_, ?_⟩
      · rw [← hrun]
        exact setup.plainQueue env _
      · rw [← hrun]
        exact hquiet m d m' rfl
      · rw [← run_concat, ← hrun, ← hrun]
        simpa using hcfg m d m' rfl
    rw [hmid.not_timesOut env (setup.plainQueue env _) c'] at hc'
    cases hc'

end MockAgents.Realtime
