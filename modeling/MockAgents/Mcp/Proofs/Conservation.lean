import MockAgents.Mcp.Outbound
/-!
# No message and no wake-up is lost

A pump takes a message off the queue before it has a reader for it, and puts it back when
it is detached.  Each step moves at most one message between the queue, a pump and the
history, so what was enqueued is at every moment in one place.  A pump sleeps only on an
empty queue, and whoever fills the queue reads which pump to wake in the same critical
section.
-/

namespace MockAgents.Mcp

open Lib List Option System Bidirectional Pool

/-! ## What a step can do -/

inductive Step (s : Shared) : Task → Shared → Task → Prop where
  /-- a `select` without a ready case, or a goroutine that has ended -/
  | stay (t : Task) : Step s t s t
  | attach : Step s .subscribe { s with bi := s.bi.attach } (.pump s.bi.subs.length .head)
  | exit (sub : Nat) (pc : PumpPc) (idle : pc = .head ∨ pc = .wait ∨ pc = .signal none) :
      Step s (.pump sub pc) s (.pump sub .exited)
  | sleep (sub : Nat) (empty : s.bi.outbound = []) :
      Step s (.pump sub .head) s (.pump sub .wait)
  | take (sub : Nat) (e : Entry) (rest : List Entry) (live : s.bi.stopped sub = false)
      (queue : s.bi.outbound = e :: rest) :
      Step s (.pump sub .head) { s with bi := { s.bi with outbound := rest } } (.pump sub (.send e))
  | awaken (sub : Nat) :
      Step s (.pump sub .wait) { s with bi := s.bi.takeWake sub } (.pump sub .head)
  | deliver (sub : Nat) (e : Entry) :
      Step s (.pump sub (.send e)) (s.receive e) (.pump sub .head)
  | abandon (sub : Nat) (e : Entry) : Step s (.pump sub (.send e)) s (.pump sub (.back e))
  | putBack (sub : Nat) (e : Entry) :
      Step s (.pump sub (.back e)) (s.putBack e) (.pump sub (.signal s.bi.sub))
  | nudge (sub next : Nat) :
      Step s (.pump sub (.signal (some next))) { s with bi := s.bi.wakeUp next } (.pump sub .exited)
  | stop (sub : Nat) : Step s (.cancel sub) { s with bi := s.bi.stop sub } (.detach sub)
  | detach (sub : Nat) : Step s (.detach sub) { s with bi := s.bi.detach sub } .returned
  | append (msg : OutboundMessage) : Step s (.enqueue msg) (s.append msg) (.signal s.bi.sub)
  | signal (sub : Nat) :
      Step s (.signal (some sub)) { s with bi := s.bi.wakeUp sub } .returned
  | unheard : Step s (.signal none) s .returned
  | drop (id : Bytes) : Step s (.dropRequest id) (s.dropRequest id) .returned

theorem pump_spec (ready : Ready) (s : Shared) (sub : Nat) (pc : PumpPc) :
    Step s (.pump sub pc) (pump ready s sub pc).1 (.pump sub (pump ready s sub pc).2) := by
  cases pc with
  | head =>
    rw [pump]
    split
    · exact .exit sub .head (.inl rfl)
    next hlive =>
      split
      next hempty => exact .sleep sub hempty
      next e rest hqueue => exact .take sub e rest (by simpa using hlive) hqueue
  | wait =>
    cases ready with
    | channel =>
      rw [pump]
      split
      · exact .awaken sub
      · exact .stay _
    | done =>
      rw [pump]
      split
      · exact .exit sub .wait (.inr (.inl rfl))
      · exact .stay _
  | send e =>
    cases ready with
    | channel => exact .deliver sub e
    | done =>
      rw [pump]
      split
      · exact .abandon sub e
      · exact .stay _
  | back e => exact .putBack sub e
  | signal next =>
    cases next with
    | none => exact .exit sub (.signal none) (.inr (.inr rfl))
    | some next => exact .nudge sub next
  | exited => exact .stay _

theorem Task.next_spec (ready : Ready) (s : Shared) (t : Task) :
    Step s t (t.next ready s).1 (t.next ready s).2 := by
  cases t with
  | subscribe => exact .attach
  | pump sub pc => exact pump_spec ready s sub pc
  | cancel sub =>
    rw [Task.next]
    split
    · exact .stop sub
    · exact .stay _
  | detach sub => exact .detach sub
  | enqueue msg => exact .append msg
  | signal sub =>
    cases sub with
    | none => exact .unheard
    | some sub => exact .signal sub
  | dropRequest id => exact .drop id
  | returned => exact .stay _

theorem act_of_steps {P : Pool Shared Task → Prop} {w : Pool Shared Task} {a : Act Call Ready}
    (hw : P w) (hstart : ∀ call, a = .start call → P (mcp.act w (.start call)))
    (hstep : ∀ i ready t s' t', a = .step i ready → w.calls[i]? = some t →
      Step w.shared t s' t' → P ⟨s', w.calls.set i t'⟩) : P (mcp.act w a) :=
  act_of_step hw hstart fun i ready t ha hi =>
    hstep i ready t _ _ ha hi (t.next_spec ready w.shared)

theorem run_of_steps {P : Pool Shared Task → Prop} (hopened : P opened)
    (hstart : ∀ w call, P w → P (mcp.act w (.start call)))
    (hstep : ∀ w i t s' t', P w → w.calls[i]? = some t → Step w.shared t s' t' →
      P ⟨s', w.calls.set i t'⟩) (acts : List (Act Call Ready)) : P (mcp.run opened acts) :=
  run_induction
    (fun w _ hw => act_of_steps hw (fun call _ => hstart w call hw)
      fun i _ t s' t' _ hi h => hstep w i t s' t' hw hi h) hopened acts

/-! ## Where messages are -/

def Shared.placed (s : Shared) : List Entry :=
  s.bi.outbound ++ (s.history.delivered ++ (s.history.dropped ++ s.history.removed))

/-- The messages of a pool, place by place: those a pump holds, and the others. -/
def places (w : Pool Shared Task) : List Entry := w.gather Task.holds ++ w.shared.placed

@[simp] theorem stopCurrent_outbound (b : Bidirectional) : b.stopCurrent.outbound = b.outbound := by
  rw [stopCurrent]
  split <;> rfl

theorem count_eraseP (p : Entry → Bool) (l : List Entry) (e : Entry) :
    (l.eraseP p).count e + (l.find? p).toList.count e = l.count e := by
  induction l with
  | nil => rfl
  | cons a l ih =>
    by_cases h : p a = true
    · simp [h, count_cons]
    · rw [eraseP_cons_of_neg h, find?_cons_of_neg h, count_cons, count_cons]
      omega

/-- A step neither loses nor repeats a message. -/
theorem Step.count {s s' : Shared} {t t' : Task} (h : Step s t s' t') (e : Entry) :
    s'.placed.count e + t'.holds.toList.count e + s.history.sent.count e =
      s.placed.count e + t.holds.toList.count e + s'.history.sent.count e := by
  cases h with
  | stay => rfl
  | attach => simp [Shared.placed, Task.holds, Bidirectional.attach]
  | exit sub pc idle => rcases idle with rfl | rfl | rfl <;> rfl
  | sleep | unheard | abandon => rfl
  | take sub e' rest live queue =>
    simp only [Shared.placed, Task.holds, queue, count_append, count_cons,
      toList_some, toList_none, count_nil]
    omega
  | awaken | nudge | stop | signal =>
    simp [Shared.placed, Task.holds, Bidirectional.takeWake, Bidirectional.wakeUp,
      Bidirectional.stop]
  | deliver sub e' =>
    simp only [Shared.placed, Shared.receive, Task.holds, count_append, toList_some,
      toList_none, count_nil]
    omega
  | putBack sub e' =>
    simp only [Shared.placed, Shared.putBack, Task.holds, count_append, count_cons,
      toList_some, toList_none, count_nil]
    omega
  | detach sub =>
    have hsame : (s.bi.detach sub).outbound = s.bi.outbound := by
      rw [Bidirectional.detach]
      split <;> rfl
    simp [Shared.placed, Task.holds, hsame]
  | append msg =>
    have hsplit : ((s.bi.outbound ++ [s.entry msg]).take s.excess).count e +
        ((s.bi.outbound ++ [s.entry msg]).drop s.excess).count e =
        s.bi.outbound.count e + [s.entry msg].count e := by
      rw [← count_append, take_append_drop, count_append]
    simp only [Shared.placed, Shared.append, Task.holds, count_append, toList_none,
      count_nil] at hsplit ⊢
    omega
  | drop id =>
    have herase := count_eraseP (·.msg.asks id) s.bi.outbound e
    simp only [Shared.placed, Shared.dropRequest, Task.holds, count_append, toList_none, count_nil]
    omega

theorem Step.sent {s s' : Shared} {t t' : Task} (h : Step s t s' t') :
    s'.history.sent = s.history.sent ∨
      ∃ msg, s'.history.sent = s.history.sent ++ [⟨s.history.sent.length, msg⟩] := by
  cases h with
  | append msg => exact .inr ⟨msg, rfl⟩
  | _ => exact .inl rfl

theorem holds_start (call : Call) : (Task.start call).holds = none := by
  cases call <;> rfl

/-- What was enqueued is what the places hold, message for message. -/
theorem places_perm (acts : List (Act Call Ready)) :
    (places (mcp.run opened acts)).Perm (mcp.run opened acts).shared.history.sent := by
  refine run_of_steps (P := fun w => (places w).Perm w.shared.history.sent) (List.Perm.refl _)
    (fun w call hw => ?_) (fun w i t s' t' hw hi hstep => ?_) acts
  · have hgather : (mcp.act w (.start call)).gather Task.holds = w.gather Task.holds := by
      rw [gather_start]
      simp [mcp, holds_start]
    rw [places, hgather]
    exact hw
  · rw [perm_iff_count] at hw ⊢
    intro e
    have hheld := count_gather_set Task.holds hi s' t' e
    have hmoved := hstep.count e
    have hold := hw e
    rw [places, count_append] at hold ⊢
    dsimp only
    omega

theorem sent_seq (acts : List (Act Call Ready)) :
    (mcp.run opened acts).shared.history.sent.map (·.seq) =
      List.range (mcp.run opened acts).shared.history.sent.length := by
  refine run_of_steps
    (P := fun w => w.shared.history.sent.map (·.seq) = List.range w.shared.history.sent.length)
    rfl (fun _ _ hw => hw) (fun w i t s' t' hw hi hstep => ?_) acts
  rcases hstep.sent with hsame | ⟨msg, hsent⟩
  · rw [hsame]
    exact hw
  · rw [hsent, map_append, hw, length_append, length_singleton, range_succ]
    rfl

/-! ## Who wakes a pump -/

@[simp] theorem append_subs (s : Shared) (msg : OutboundMessage) :
    (s.append msg).bi.subs = s.bi.subs := by
  rw [Shared.append]

@[simp] theorem append_sub (s : Shared) (msg : OutboundMessage) :
    (s.append msg).bi.sub = s.bi.sub := by
  rw [Shared.append]

namespace Bidirectional

variable (b : Bidirectional) (s k : Nat)
variable {p : Subscription → Bool} {f : Subscription → Subscription} {l : List Subscription}

theorem any_modify (h : ∀ x, p (f x) = p x) : (l.modify s f)[k]?.any p = l[k]?.any p := by
  rw [getElem?_modify]
  cases l[k]? <;> simp [apply_ite, h]

theorem any_modify_of_imp (h : ∀ x, p x = true → p (f x) = true) (hk : l[k]?.any p = true) :
    (l.modify s f)[k]?.any p = true := by
  obtain ⟨x, hx, hp⟩ := (any_eq_true _ _).mp hk
  rw [getElem?_modify, hx]
  by_cases hs : s = k <;> simp [hs, hp, h x hp]

theorem any_append (hk : l[k]?.any p = true) (l' : List Subscription) : (l ++ l')[k]?.any p = true := by
  obtain ⟨x, hx, -⟩ := (any_eq_true _ _).mp hk
  rw [getElem?_append_left (List.getElem?_eq_some_iff.mp hx).choose, hk]

@[simp] theorem stopped_wakeUp : (b.wakeUp s).stopped k = b.stopped k := any_modify s k fun _ => rfl

@[simp] theorem stopped_takeWake : (b.takeWake s).stopped k = b.stopped k := any_modify s k fun _ => rfl

@[simp] theorem woken_stop : (b.stop s).woken k = b.woken k := any_modify s k fun _ => rfl

variable {b s k}

theorem stopped_stop (h : b.stopped k = true) : (b.stop s).stopped k = true :=
  any_modify_of_imp s k (fun _ _ => rfl) h

theorem woken_wakeUp_of_lt (h : s < b.subs.length) : (b.wakeUp s).woken s = true := by
  simp [woken, wakeUp, h]

theorem woken_wakeUp (h : b.woken k = true) : (b.wakeUp s).woken k = true :=
  any_modify_of_imp s k (fun _ _ => rfl) h

@[simp] theorem length_stopCurrent : b.stopCurrent.subs.length = b.subs.length := by
  rw [stopCurrent]
  split <;> simp [stop]

theorem stopped_attach (h : b.stopped k = true) : b.attach.stopped k = true := by
  refine any_append k ?_ _
  rw [stopCurrent]
  split
  · exact stopped_stop h
  · exact h

theorem woken_attach (h : b.woken k = true) : b.attach.woken k = true := by
  refine any_append k ?_ _
  rw [stopCurrent]
  split
  · exact (woken_stop b _ k).trans h
  · exact h

theorem detach_eq (b : Bidirectional) (s : Nat) :
    b.detach s = b ∨ b.detach s = { b with sub := none } := by
  rw [detach]
  split
  · exact .inr rfl
  · exact .inl rfl

end Bidirectional

section Steps
variable {s s' : Shared} {t t' : Task} {k : Nat}

theorem Step.length_subs (h : Step s t s' t') : s.bi.subs.length ≤ s'.bi.subs.length := by
  cases h with
  | attach => simp [Bidirectional.attach]
  | awaken | nudge | stop | signal =>
    simp [Bidirectional.takeWake, Bidirectional.wakeUp, Bidirectional.stop]
  | detach sub => rcases s.bi.detach_eq sub with heq | heq <;> simp [heq]
  | append => simp
  | _ => exact le_rfl

/-- A goroutine serves the subscription it served, or the one it makes. -/
theorem Step.serves (h : Step s t s' t') :
    t'.serves = t.serves ∨ t.serves = none ∧ t'.serves = some s.bi.subs.length ∧
      s.bi.subs.length < s'.bi.subs.length := by
  cases h with
  | attach => exact .inr ⟨rfl, rfl, by simp [Bidirectional.attach]⟩
  | _ => exact .inl rfl

theorem Step.attached (h : Step s t s' t') (hsub : s'.bi.sub = some k) :
    s.bi.sub = some k ∨ k = s.bi.subs.length ∧ s.bi.subs.length < s'.bi.subs.length := by
  cases h with
  | attach => exact .inr ⟨(some.inj hsub).symm, by simp [Bidirectional.attach]⟩
  | detach sub =>
    rcases s.bi.detach_eq sub with heq | heq
    · exact .inl (by simpa [heq] using hsub)
    · simp [heq] at hsub
  | append => exact .inl (by simpa using hsub)
  | _ => exact .inl hsub

/-- A signal goes to the subscription that was attached in the critical section. -/
theorem Step.signals (h : Step s t s' t') (hk : t'.signals = some k) :
    t.signals = some k ∨ s.bi.sub = some k := by
  cases h with
  | stay => exact .inl hk
  | putBack | append => exact .inr hk
  | _ => cases hk

theorem Step.stopped (h : Step s t s' t') (hk : s.bi.stopped k = true) :
    s'.bi.stopped k = true := by
  cases h with
  | attach => exact stopped_attach hk
  | awaken | nudge | signal => simpa using hk
  | stop => exact stopped_stop hk
  | detach sub =>
    rcases s.bi.detach_eq sub with heq | heq
    · simpa [heq] using hk
    · simpa [heq, stopped] using hk
  | append => simpa [stopped] using hk
  | _ => exact hk

/-- Whoever fills the queue signals the attached subscription next. -/
theorem Step.filled (h : Step s t s' t') (hne : s'.bi.outbound ≠ []) :
    s.bi.outbound ≠ [] ∨ t'.signals = s.bi.sub := by
  cases h with
  | take sub e rest live queue => exact .inl (by simp [queue])
  | putBack | append => exact .inr rfl
  | attach =>
    refine .inl ?_
    simpa [Bidirectional.attach] using hne
  | detach sub => rcases s.bi.detach_eq sub with heq | heq <;> exact .inl (by simpa [heq] using hne)
  | drop id =>
    refine .inl fun hempty => hne ?_
    simp [Shared.dropRequest, hempty]
  | _ => exact .inl hne

/-- Only the pump itself takes its signal, and looks at the queue next. -/
theorem Step.woken (h : Step s t s' t') (hk : s.bi.woken k = true) :
    s'.bi.woken k = true ∨ t.serves = some k ∧ t' = .pump k .head := by
  cases h with
  | attach => exact .inl (woken_attach hk)
  | awaken sub =>
    by_cases hne : sub = k
    · subst hne
      exact .inr ⟨rfl, rfl⟩
    · exact .inl (by simpa [woken, Bidirectional.takeWake, hne] using hk)
  | nudge | signal => exact .inl (woken_wakeUp hk)
  | stop => exact .inl (by simpa using hk)
  | detach sub =>
    rcases s.bi.detach_eq sub with heq | heq
    · exact .inl (by simpa [heq] using hk)
    · exact .inl (by simpa [heq, woken] using hk)
  | append => exact .inl (by simpa [woken] using hk)
  | _ => exact .inl hk

/-- A pending signal is raised, or stays pending. -/
theorem Step.raises (h : Step s t s' t') (hk : t.signals = some k) (hlt : k < s.bi.subs.length) :
    s'.bi.woken k = true ∨ t'.signals = some k := by
  cases h with
  | stay => exact .inr hk
  | exit sub pc idle => rcases idle with rfl | rfl | rfl <;> cases hk
  | nudge | signal =>
    cases hk
    exact .inl (woken_wakeUp_of_lt hlt)
  | _ => cases hk

theorem Step.sleeps (h : Step s t s' t') (ht : t' = .pump k .wait) :
    t = .pump k .wait ∨ s'.bi.outbound = [] := by
  cases h with
  | stay => exact .inl ht
  | sleep sub empty => exact .inr empty
  | _ => cases ht

end Steps

/-- The subscriptions in use were made, each with one pump. -/
structure Made (w : Pool Shared Task) : Prop where
  served : (w.gather Task.serves).Nodup
  pumps : ∀ k ∈ w.gather Task.serves, k < w.shared.bi.subs.length
  sub : ∀ k, w.shared.bi.sub = some k → k < w.shared.bi.subs.length
  signals : ∀ k ∈ w.gather Task.signals, k < w.shared.bi.subs.length

theorem made_step {w : Pool Shared Task} (h : Made w) {i : Nat} {t t' : Task} {s' : Shared}
    (hi : w.calls[i]? = some t) (hstep : Step w.shared t s' t') : Made ⟨s', w.calls.set i t'⟩ := by
  have hlength := hstep.length_subs
  have hpumps : (Pool.mk s' (w.calls.set i t')).Numbered Task.serves (fun s => s.bi.subs.length) :=
    Numbered.set ⟨h.served, h.pumps⟩ hi hlength (hstep.serves.imp_right .inr)
  refine ⟨hpumps.nodup, hpumps.below, fun k hk => ?_, fun k hk => ?_⟩
  · rcases hstep.attached hk with hold | ⟨rfl, hlt⟩
    · exact Nat.lt_of_lt_of_le (h.sub k hold) hlength
    · exact hlt
  · refine Nat.lt_of_lt_of_le ?_ hlength
    rcases mem_gather_set hi hk with hold | hown
    · exact h.signals k hold
    · rcases hstep.signals hown with hold | hsub
      · exact h.signals k (mem_gather _ hi hold)
      · exact h.sub k hsub

theorem made_start {w : Pool Shared Task} (h : Made w) (call : Call) :
    Made (mcp.act w (.start call)) := by
  have hserves : (mcp.act w (.start call)).gather Task.serves = w.gather Task.serves := by
    rw [gather_start]
    cases call <;> simp [mcp, Task.start, Task.serves]
  have hsignals : (mcp.act w (.start call)).gather Task.signals = w.gather Task.signals := by
    rw [gather_start]
    cases call <;> simp [mcp, Task.start, Task.signals]
  exact ⟨hserves ▸ h.served, hserves ▸ h.pumps, h.sub, hsignals ▸ h.signals⟩

theorem made_run (acts : List (Act Call Ready)) : Made (mcp.run opened acts) :=
  run_of_steps ⟨nodup_nil, by simp [gather, opened], by simp [opened, newBidirectional],
    by simp [gather, opened]⟩ (fun _ call hw => made_start hw call)
    (fun _ _ _ _ _ hw hi hstep => made_step hw hi hstep) acts

/-- The pump of an attached subscription sleeps beside a non-empty queue only while its
signal is raised or about to be. -/
def Awake (w : Pool Shared Task) : Prop :=
  ∀ (i k : Nat), w.calls[i]? = some (.pump k .wait) → w.shared.bi.sub = some k →
    w.shared.bi.stopped k = false → w.shared.bi.outbound ≠ [] →
    w.shared.bi.woken k = true ∨ ∃ (j : Nat) (t : Task), w.calls[j]? = some t ∧ t.signals = some k

theorem awake_start {w : Pool Shared Task} (h : Awake w) (call : Call) :
    Awake (mcp.act w (.start call)) := by
  intro i k hi hsub hlive hne
  rcases call_act_cases hi with ⟨hold, -⟩ | ⟨_, _, hact, -⟩ | ⟨call', -, -, hpump⟩
  · refine (h i k hold hsub hlive hne).imp_right ?_
    rintro ⟨j, t, hj, hsignals⟩
    rcases call_act_of_some hj (.start call) with hsame | ⟨_, hact, -⟩
    · exact ⟨j, t, hsame, hsignals⟩
    · cases hact
  · cases hact
  · cases call' <;> cases hpump

theorem awake_step {w : Pool Shared Task} (hmade : Made w) (h : Awake w) {i : Nat} {t t' : Task}
    {s' : Shared} (hi : w.calls[i]? = some t) (hstep : Step w.shared t s' t') :
    Awake ⟨s', w.calls.set i t'⟩ := by
  intro i' k hi' hsub hlive hne
  have hlt : i < w.calls.length := (List.getElem?_eq_some_iff.mp hi).choose
  have hown : (w.calls.set i t')[i]? = some t' := by simp [hlt]
  -- the pump was asleep before: one that just went to sleep saw an empty queue
  have hasleep : w.calls[i']? = some (.pump k .wait) := by
    by_cases heq : i = i'
    · subst heq
      obtain rfl : t' = .pump k .wait := some.inj (hown.symm.trans hi')
      rcases hstep.sleeps rfl with rfl | hempty
      · exact hi
      · exact absurd hempty hne
    · simpa [heq] using hi'
  have hk := hmade.pumps k (mem_gather Task.serves hasleep rfl)
  have hsub' : w.shared.bi.sub = some k := by
    rcases hstep.attached hsub with hold | ⟨hnew, -⟩
    · exact hold
    · exact absurd hnew (Nat.ne_of_lt hk)
  have hlive' : w.shared.bi.stopped k = false := by
    by_contra hstopped
    rw [hstep.stopped (by simpa using hstopped)] at hlive
    cases hlive
  rcases hstep.filled hne with hne' | hfilled
  · rcases h i' k hasleep hsub' hlive' hne' with hwoken | ⟨j, u, hj, hsignals⟩
    · rcases hstep.woken hwoken with hwoken' | ⟨hserves, hhead⟩
      · exact .inl hwoken'
      · -- the signal was taken by the pump itself, which is then no longer asleep
        obtain rfl : i = i' := call_eq_of_gather hmade.served hi hasleep hserves rfl
        subst hhead
        cases hown.symm.trans hi'
    · by_cases heq : i = j
      · subst heq
        obtain rfl : t = u := some.inj (hi.symm.trans hj)
        exact (hstep.raises hsignals hk).imp_right fun hstill => ⟨i, t', hown, hstill⟩
      · exact .inr ⟨j, u, by simpa [heq] using hj, hsignals⟩
  · exact .inr ⟨i, t', hown, hfilled.trans hsub'⟩

theorem awake_run (acts : List (Act Call Ready)) : Awake (mcp.run opened acts) :=
  (run_of_steps (P := fun w => Made w ∧ Awake w)
    ⟨made_run [], fun i k hi => by simp [opened] at hi⟩
    (fun _ call hw => ⟨made_start hw.1 call, awake_start hw.2 call⟩)
    (fun _ _ _ _ _ hw hi hstep => ⟨made_step hw.1 hi hstep, awake_step hw.1 hw.2 hi hstep⟩) acts).2

/-- A signal is in the channel, or a goroutine raises it with its next step. -/
def SignalPending (w : Pool Shared Task) (k : Nat) : Prop :=
  w.shared.bi.woken k = true ∨
    ∃ j, ∀ ready, (mcp.act w (.step j ready)).shared.bi.woken k = true

theorem woken_of_signals {w : Pool Shared Task} {j : Nat} {t : Task} {k : Nat}
    (hj : w.calls[j]? = some t) (hsignals : t.signals = some k) (hk : k < w.shared.bi.subs.length)
    (ready : Ready) : (mcp.act w (.step j ready)).shared.bi.woken k = true := by
  rw [(act_step hj ready).1]
  cases t with
  | signal sub =>
    obtain rfl : sub = some k := hsignals
    exact woken_wakeUp_of_lt hk
  | pump sub pc =>
    cases pc with
    | signal next =>
      obtain rfl : next = some k := hsignals
      exact woken_wakeUp_of_lt hk
    | head | wait | send | back | exited => cases hsignals
  | subscribe | cancel | detach | enqueue | dropRequest | returned => cases hsignals

-- a pump asleep beside a queue that an `enqueue` has just filled and not yet signalled
example :
    let w := mcp.run opened [.start .subscribe, .step 0 .channel, .step 0 .channel,
      .start (.enqueue (.ofNotification ⟨"n"⟩)), .step 1 .channel]
    w.calls[0]? = some (.pump 0 .wait) ∧ w.shared.bi.sub = some 0 ∧
      w.shared.bi.stopped 0 = false ∧ w.shared.bi.outbound ≠ [] ∧
      w.shared.bi.woken 0 = false := by
  decide +kernel

end MockAgents.Mcp
