import MockAgents.Engine.Chaos
import MockAgents.Lib.Projection
import MockAgents.Realtime.Exact
/-!
# Chaos counters are isolated and exact

What a step can do to the counters of a key is said once (`Effect`).  From it follow that
the calls of other agents leave the counters alone, and that the counters are what the
events of the key since its last reset make them.
-/

namespace MockAgents.Engine

open Lib Lib.Maps Lib.Utf8 Realtime List AList Option Shared System

/-! ## Keys -/

section Keys
variable {F : Type} {tenantID name tenantID' name' : Bytes}

theorem scopeKey_append (tenantID name rest : Bytes) :
    scopeKey tenantID name ++ rest = tenantID ++ 0 :: (name ++ rest) := by
  simp [scopeKey]

theorem scopeKey_inj (h : 0 ∉ tenantID) (h' : 0 ∉ tenantID')
    (heq : scopeKey tenantID name = scopeKey tenantID' name') :
    tenantID = tenantID' ∧ name = name' :=
  Keys.first_inj h h' heq

theorem counterKey_inj {action action' : Bytes} (ht : 0 ∉ tenantID) (ht' : 0 ∉ tenantID')
    (hn : 0 ∉ name) (hn' : 0 ∉ name')
    (heq : scopeKey tenantID name ++ 0 :: action = scopeKey tenantID' name' ++ 0 :: action') :
    tenantID = tenantID' ∧ name = name' := by
  rw [scopeKey_append, scopeKey_append] at heq
  obtain ⟨htenant, hrest⟩ := Keys.first_inj ht ht' heq
  exact ⟨htenant, (Keys.first_inj hn hn' hrest).1⟩

/-- The counters that a reset clears in `globalCounts` are those of its own agent. -/
theorem isPrefixOf_counterKey (ht : 0 ∉ tenantID) (ht' : 0 ∉ tenantID') (hn : 0 ∉ name)
    (hn' : 0 ∉ name') (action : Bytes) :
    (scopeKey tenantID' name' ++ [0]).isPrefixOf (scopeKey tenantID name ++ 0 :: action) =
      decide (tenantID = tenantID' ∧ name = name') := by
  rw [Bool.eq_iff_iff, isPrefixOf_iff_prefix, decide_eq_true_eq]
  constructor
  · rintro ⟨rest, hrest⟩
    rw [append_assoc] at hrest
    exact counterKey_inj ht ht' hn hn' hrest.symm
  · rintro ⟨rfl, rfl⟩
    exact ⟨action, by simp⟩

end Keys

/-! ## The counters of a key -/

@[ext]
structure Counters where
  bucket : Option RateBucket
  count : Stage → Option Int
  global : Bytes → Option Nat

def Counters.empty : Counters := ⟨none, fun _ => none, fun _ => none⟩

namespace Shared

def counters (s : Shared) (key : Bytes) : Counters :=
  ⟨s.injector.buckets.lookup key, fun stage => (s.injector.counts stage).lookup key,
    fun action => s.injector.globalCounts.lookup (key ++ 0 :: action)⟩

def eventsOf (s : Shared) (key : Bytes) : List Event :=
  (s.history.filter fun e => e.1 = key).map (·.2)

variable (s : Shared) {key key' : Bytes}

theorem counters_setBucket (key : Bytes) (b : RateBucket) (e : Event) :
    (s.setBucket key b e).counters key = { s.counters key with bucket := some b } := by
  simp [counters, setBucket]

theorem counters_setCount (key : Bytes) (stage : Stage) (n : Int) :
    (s.setCount key stage n).counters key =
      { s.counters key with count := Function.update (s.counters key).count stage (some n) } := by
  refine Counters.ext rfl (funext fun other => ?_) rfl
  by_cases h : other = stage
  · subst h
    simp [setCount, counters]
  · simp [setCount, counters, h]

theorem counters_setCount_ne (h : key ≠ key') (stage : Stage) (n : Int) :
    (s.setCount key' stage n).counters key = s.counters key := by
  refine Counters.ext rfl (funext fun other => ?_) rfl
  by_cases hother : other = stage
  · subst hother
    simp [setCount, counters, lookup_insert_ne h]
  · simp [setCount, counters, hother]

theorem counters_setGlobal (key action : Bytes) (n : Nat) :
    (s.setGlobal (key ++ 0 :: action) n).counters key =
      { s.counters key with global := Function.update (s.counters key).global action (some n) } := by
  refine Counters.ext rfl rfl (funext fun other => ?_)
  by_cases h : other = action
  · subst h
    simp [setGlobal, counters]
  · have hne : key ++ 0 :: other ≠ key ++ 0 :: action := by simpa using h
    simp [setGlobal, counters, lookup_insert_ne hne, h]

theorem eventsOf_append (s : Shared) (i : ChaosInjector) (key key' : Bytes) (e : Event) :
    (Shared.mk i (s.history ++ [(key', e)])).eventsOf key =
      s.eventsOf key ++ if key' = key then [e] else [] := by
  by_cases h : key' = key <;> simp [eventsOf, h]

end Shared

section Reset
variable {tenantID name tenantID' name' : Bytes} (ht : 0 ∉ tenantID) (hn : 0 ∉ name)
include ht hn

theorem counters_resetAgent (s : Shared) :
    (resetAgent s tenantID name).counters (scopeKey tenantID name) = .empty := by
  simp [Shared.counters, resetAgent, Counters.empty, lookup_keepIf,
    isPrefixOf_counterKey ht ht hn hn]

theorem counters_resetAgent_ne (ht' : 0 ∉ tenantID') (hn' : 0 ∉ name')
    (h : ¬ (tenantID = tenantID' ∧ name = name')) (s : Shared) :
    (resetAgent s tenantID' name').counters (scopeKey tenantID name) =
      s.counters (scopeKey tenantID name) := by
  have hkey : scopeKey tenantID name ≠ scopeKey tenantID' name' := fun heq =>
    h (scopeKey_inj ht ht' heq)
  refine Counters.ext (lookup_erase_ne hkey) (funext fun stage => lookup_erase_ne hkey)
    (funext fun action => ?_)
  have hkept : ∀ o : Option Nat, o.filter (fun _ => !decide (tenantID = tenantID' ∧ name = name')) = o := by
    intro o
    cases o <;> simp [h]
  simp only [Shared.counters, resetAgent, lookup_keepIf, isPrefixOf_counterKey ht ht' hn hn', hkept]

end Reset

/-! ## What a step does -/

def Event.onBucket (b : Option RateBucket) : Event → Option RateBucket
  | .reset => none
  | .window start => some ⟨start, 1⟩
  | .passed | .limited => b.map fun bucket => { bucket with count := bucket.count + 1 }
  | .reached _ => b

def Event.isLimit : Event → Bool
  | .window _ | .passed | .limited => true
  | .reset | .reached _ => false

/-- What a step of a call for the agent does to the injector. -/
inductive Effect {F : Type} (s : Shared) (agent : Agent F) : Shared → Prop
  | nothing : Effect s agent s
  | limit (b : RateBucket) (e : Event) (he : e.isLimit = true)
      (hb : e.onBucket (s.counters (chaosKey agent)).bucket = some b) :
      Effect s agent (s.setBucket (chaosKey agent) b e)
  | reached (stage : Stage) :
      Effect s agent (s.setCount (chaosKey agent) stage
        (((s.counters (chaosKey agent)).count stage).getD 0 + 1))
  | global (action : Bytes) (n : Nat) :
      Effect s agent (s.setGlobal (chaosKey agent ++ 0 :: action) n)
  | reset : Effect s agent (resetAgent s agent.tenantID agent.name)

section
variable {F : Type}

def Task.agent : Task F → Agent F
  | .before agent _ | .after agent _ | .reset agent _ => agent

def owned (tenantID name : Bytes) (t : Task F) : Bool :=
  decide (t.agent.tenantID = tenantID ∧ t.agent.name = name)

/-- Two states with the same counters under a key, and what a call for the key returns in
each of them. -/
def Agrees {α : Type} (key : Bytes) (r r' : Shared × α) : Prop :=
  r.1.counters key = r'.1.counters key ∧ r.2 = r'.2

/-- A step of a call for the agent, which depends on the counters of the agent only. -/
structure StepOf {α : Type} (agent : Agent F) (f : Shared → Shared × α) : Prop where
  effect : ∀ s, Effect s agent (f s).1
  agrees : ∀ s s', s.counters (chaosKey agent) = s'.counters (chaosKey agent) →
    Agrees (chaosKey agent) (f s) (f s')

variable {agent : Agent F}

theorem StepOf.none {α : Type} (a : α) : StepOf agent fun s => (s, a) :=
  ⟨fun _ => .nothing, fun _ _ h => ⟨h, rfl⟩⟩

theorem StepOf.map {α β : Type} {f : Shared → Shared × α} (h : StepOf agent f) (g : α → β) :
    StepOf agent fun s => ((f s).1, g (f s).2) :=
  ⟨h.effect, fun s s' heq => ⟨(h.agrees s s' heq).1, congrArg g (h.agrees s s' heq).2⟩⟩

theorem checkRateLimit_stepOf (rl : ChaosRateLimitConfig) (now : Int) :
    StepOf agent fun s => checkRateLimit s (chaosKey agent) rl now := by
  refine ⟨fun s => ?_, fun s s' h => ?_⟩
  · unfold checkRateLimit
    cases hb : s.injector.buckets.lookup (chaosKey agent) with
    | none => exact .limit _ _ rfl rfl
    | some bucket =>
      dsimp only
      split
      · exact .limit _ _ rfl rfl
      · split
        · exact .limit _ _ rfl (by simp [Event.onBucket, Shared.counters, hb])
        · exact .limit _ _ rfl (by simp [Event.onBucket, Shared.counters, hb])
  · have hset : ∀ b e, (s.setBucket (chaosKey agent) b e).counters (chaosKey agent) =
        (s'.setBucket (chaosKey agent) b e).counters (chaosKey agent) := by
      intro b e
      rw [Shared.counters_setBucket, Shared.counters_setBucket, h]
    have hbucket : s.injector.buckets.lookup (chaosKey agent) =
        s'.injector.buckets.lookup (chaosKey agent) := congrArg Counters.bucket h
    unfold checkRateLimit
    rw [hbucket]
    cases s'.injector.buckets.lookup (chaosKey agent) with
    | none => exact ⟨hset _ _, rfl⟩
    | some bucket =>
      dsimp only
      split
      · exact ⟨hset _ _, rfl⟩
      · split
        · exact ⟨hset _ _, rfl⟩
        · exact ⟨hset _ _, rfl⟩

variable [GoFloat F] {settings : Settings F}
variable {name tenantID : Bytes}

theorem shouldTrigger_stepOf (ch : Choice F) (rate : F) (failFirst : Int) (stage : Stage) :
    StepOf agent fun s => shouldTrigger ch s (chaosKey agent) rate failFirst stage := by
  unfold shouldTrigger
  split
  · refine ⟨fun s => .reached stage, fun s s' h => ?_⟩
    have hcount : (s.injector.counts stage).lookup (chaosKey agent) =
        (s'.injector.counts stage).lookup (chaosKey agent) :=
      congrFun (congrArg Counters.count h) stage
    refine ⟨?_, by rw [hcount]⟩
    rw [counters_setCount, counters_setCount, h, hcount]
  · exact .none _

theorem globalAllows_stepOf (action : Bytes) :
    StepOf agent fun s => globalAllows settings s (chaosKey agent) agent.name action := by
  unfold globalAllows
  split
  · exact .none _
  · refine ⟨fun s => .global action _, fun s s' h => ?_⟩
    have hglobal : s.injector.globalCounts.lookup (chaosKey agent ++ 0 :: action) =
        s'.injector.globalCounts.lookup (chaosKey agent ++ 0 :: action) :=
      congrFun (congrArg Counters.global h) action
    dsimp only
    rw [hglobal]
    refine ⟨?_, rfl⟩
    rw [counters_setGlobal, counters_setGlobal, h]

theorem errorsStep_stepOf : StepOf agent fun s => errorsStep settings s agent := by
  unfold errorsStep
  split
  · exact .none _
  · split
    · split
      · exact (globalAllows_stepOf _).map fun allowed => if allowed then _ else _
      · exact .none _
    · exact .none _

theorem connectionStep_stepOf : StepOf agent fun s => connectionStep settings s agent := by
  unfold connectionStep
  split
  · exact .none _
  · split
    · split
      · exact (globalAllows_stepOf _).map fun allowed => if allowed then _ else _
      · exact .none _
    · exact .none _

theorem afterStep_stepOf (ch : Choice F) : StepOf agent fun s => afterStep settings ch s agent := by
  unfold afterStep
  split
  · exact .none _
  · exact (globalAllows_stepOf _).map fun allowed => if allowed then _ else _

/-- What a call returns depends on the counters of its own agent only. -/
theorem next_stepOf (ch : Choice F) (t : Task F) :
    StepOf t.agent fun s => t.next settings ch s := by
  cases t with
  | before agent pc =>
    refine StepOf.map (f := fun s => beforeStep settings ch s agent pc) ?_ _
    cases pc with
    | clock rl => exact .none _
    | limit rl now =>
      have h : StepOf agent _ := checkRateLimit_stepOf rl now
      refine ⟨h.effect, fun s s' heq => ?_⟩
      obtain ⟨hcounters, hresult⟩ := h.agrees s s' heq
      exact ⟨hcounters, by simp only [beforeStep, hresult]⟩
    | errors => exact errorsStep_stepOf
    | errorTrigger e => exact (shouldTrigger_stepOf ch _ _ _).map fun fault => if fault then _ else _
    | connection => exact connectionStep_stepOf
    | connectionTrigger c =>
      exact (shouldTrigger_stepOf ch _ _ _).map fun fault => BeforePc.done (if fault then _ else _)
    | done err => exact .none _
  | after agent delay =>
    cases delay with
    | none => exact (afterStep_stepOf ch).map fun delay => Task.after agent (some delay)
    | some delay => exact .none _
  | reset agent finished =>
    cases finished with
    | false =>
      refine ⟨fun s => .reset, fun s s' h => ⟨?_, rfl⟩⟩
      have hempty : ∀ s : Shared,
          (resetAgent s agent.tenantID agent.name).counters (chaosKey agent) = .empty :=
        counters_resetAgent agent.tenant_noNul agent.name_noNul
      exact (hempty s).trans (hempty s').symm
    | true => exact .none _

theorem next_agent (ch : Choice F) (s : Shared) (t : Task F) :
    (t.next settings ch s).2.agent = t.agent := by
  cases t with
  | before agent pc => rfl
  | after agent delay => cases delay <;> rfl
  | reset agent finished => cases finished <;> rfl

/-! ## Isolation -/

omit [GoFloat F] in
theorem Effect.counters_ne {s s' : Shared} {agent : Agent F} (h : Effect s agent s')
    (ht : 0 ∉ tenantID) (hn : 0 ∉ name) (hne : ¬ (tenantID = agent.tenantID ∧ name = agent.name)) :
    s'.counters (scopeKey tenantID name) = s.counters (scopeKey tenantID name) := by
  have hkey : scopeKey tenantID name ≠ chaosKey agent := fun heq =>
    hne (scopeKey_inj ht agent.tenant_noNul heq)
  cases h with
  | nothing => rfl
  | limit b e => simp [Shared.counters, setBucket, lookup_insert_ne hkey]
  | reached stage => exact s.counters_setCount_ne hkey stage _
  | global action n =>
    refine Counters.ext rfl rfl (funext fun other => lookup_insert_ne fun heq => ?_)
    exact hne (counterKey_inj ht agent.tenant_noNul hn agent.name_noNul heq)
  | reset => exact counters_resetAgent_ne ht hn agent.tenant_noNul agent.name_noNul hne s

/-- The run is at its start, or its last step was the reset of the agent. -/
def StartsOver (settings : Settings F) (tenantID name : Bytes) (acts : List (Act (Call F) (Choice F))) :
    Prop :=
  acts = [] ∨ ∃ earlier i choice agent, acts = earlier ++ [.step i choice] ∧
    ((chaos settings).run opened earlier).calls[i]? = some (.reset agent false) ∧
    agent.tenantID = tenantID ∧ agent.name = name

theorem StartsOver.counters {acts : List (Act (Call F) (Choice F))}
    (h : StartsOver settings tenantID name acts) :
    ((chaos settings).run opened acts).shared.counters (scopeKey tenantID name) = .empty := by
  rcases h with rfl | ⟨earlier, i, choice, agent, rfl, hi, rfl, rfl⟩
  · rfl
  · rw [run_append, run_cons, act_step_eq hi]
    exact counters_resetAgent agent.tenant_noNul agent.name_noNul _

/-- From a reset on, the calls for an agent go through the same states as with a new injector
and no other calls. -/
theorem owned_calls_alone (ht : 0 ∉ tenantID) (hn : 0 ∉ name)
    {pre : List (Act (Call F) (Choice F))} (h : StartsOver settings tenantID name pre)
    (post : List (Act (Call F) (Choice F))) :
    ((chaos settings).run opened (pre ++ post)).calls.filter (owned tenantID name) =
      ((chaos settings).run
        ⟨⟨newChaosInjector, []⟩, ((chaos settings).run opened pre).calls.filter (owned tenantID name)⟩
        ((chaos settings).ownActs (owned tenantID name) ((chaos settings).run opened pre) post)).calls := by
  have halike : Alike (owned tenantID name)
      (fun s s' : Shared => s.counters (scopeKey tenantID name) = s'.counters (scopeKey tenantID name))
      ((chaos settings).run opened pre)
      ⟨⟨newChaosInjector, []⟩, ((chaos settings).run opened pre).calls.filter (owned tenantID name)⟩ :=
    ⟨rfl, h.counters⟩
  rw [run_append]
  refine (halike.run ?_ ?_ ?_ post).1
  · intro choice s t
    simp only [owned, show ((chaos settings).next choice s t).2.agent = t.agent from next_agent choice s t]
  · intro choice s s' t hmine hs
    obtain ⟨htenant, hname⟩ : t.agent.tenantID = tenantID ∧ t.agent.name = name := by
      simpa [owned] using hmine
    subst htenant hname
    exact (next_stepOf choice t).agrees s s' hs
  · intro choice s s' t hmine hs
    have hne : ¬ (tenantID = t.agent.tenantID ∧ name = t.agent.name) := by
      rintro ⟨rfl, rfl⟩
      simp [owned] at hmine
    exact (((next_stepOf choice t).effect s).counters_ne ht hn hne).trans hs

end

/-! ## What the events say -/

def Event.onReached (stage : Stage) (n : Nat) : Event → Nat
  | .reset => 0
  | .reached stage' => if stage' = stage then n + 1 else n
  | .window _ | .passed | .limited => n

def Event.onPasses (n : Nat) : Event → Nat
  | .window _ => 1
  | .passed => n + 1
  | .reset | .limited | .reached _ => n

def bucketAfter (events : List Event) : Option RateBucket := events.foldl Event.onBucket none

def reachedAfter (stage : Stage) (events : List Event) : Nat := events.foldl (Event.onReached stage) 0

def passesAfter (events : List Event) : Nat := events.foldl Event.onPasses 0

section Events
variable (events : List Event) (e : Event)

theorem bucketAfter_concat : bucketAfter (events ++ [e]) = e.onBucket (bucketAfter events) :=
  foldl_append

theorem reachedAfter_concat (stage : Stage) :
    reachedAfter stage (events ++ [e]) = e.onReached stage (reachedAfter stage events) :=
  foldl_append

theorem passesAfter_concat : passesAfter (events ++ [e]) = e.onPasses (passesAfter events) :=
  foldl_append

theorem passesAfter_le {b : RateBucket} (h : bucketAfter events = some b) :
    (passesAfter events : Int) ≤ b.count := by
  induction events using reverseRecOn generalizing b with
  | nil => simp [bucketAfter] at h
  | append_singleton events e ih =>
    rw [bucketAfter_concat] at h
    rw [passesAfter_concat]
    cases e with
    | reset => simp [Event.onBucket] at h
    | window start =>
      obtain rfl : RateBucket.mk start 1 = b := by simpa [Event.onBucket] using h
      simp [Event.onPasses]
    | passed =>
      obtain ⟨b', hb', rfl⟩ := Option.map_eq_some_iff.mp h
      have := ih hb'
      simp only [Event.onPasses]
      omega
    | limited =>
      obtain ⟨b', hb', rfl⟩ := Option.map_eq_some_iff.mp h
      have := ih hb'
      simp only [Event.onPasses]
      omega
    | reached stage => exact ih h

/-- Without a decision of the rate limit a bucket stays or is dropped. -/
theorem bucketAfter_append_quiet (quiet : List Event) (h : ∀ e ∈ quiet, e.isLimit = false) :
    bucketAfter (events ++ quiet) = bucketAfter events ∨ bucketAfter (events ++ quiet) = none := by
  induction quiet using reverseRecOn with
  | nil => exact .inl (by rw [append_nil])
  | append_singleton quiet e ih =>
    have hquiet := ih fun e he => h e (mem_append_left _ he)
    have he := h e (by simp)
    rw [← append_assoc, bucketAfter_concat]
    cases e with
    | reset => exact .inr rfl
    | reached stage => exact hquiet
    | window start => simp [Event.isLimit] at he
    | passed => simp [Event.isLimit] at he
    | limited => simp [Event.isLimit] at he

end Events

/-- The counters of a key are those its events make. -/
structure Tracks (key : Bytes) (s : Shared) : Prop where
  bucket : (s.counters key).bucket = bucketAfter (s.eventsOf key)
  count : ∀ stage, ((s.counters key).count stage).getD 0 = reachedAfter stage (s.eventsOf key)

section
variable {F : Type} {s s' : Shared} {agent : Agent F} {tenantID name : Bytes}

theorem Effect.eventsOf_ne (h : Effect s agent s') {key : Bytes} (hne : chaosKey agent ≠ key) :
    s'.eventsOf key = s.eventsOf key := by
  have hadd : ∀ (i : ChaosInjector) (e : Event),
      (Shared.mk i (s.history ++ [(chaosKey agent, e)])).eventsOf key = s.eventsOf key := by
    intro i e
    rw [eventsOf_append, if_neg hne, append_nil]
  cases h with
  | nothing => rfl
  | limit b e => exact hadd _ e
  | reached stage => exact hadd _ (.reached stage)
  | global action n => rfl
  | reset => exact hadd _ .reset

theorem eventsOf_own (s : Shared) (i : ChaosInjector) (key : Bytes) (e : Event) :
    (Shared.mk i (s.history ++ [(key, e)])).eventsOf key = s.eventsOf key ++ [e] := by
  rw [eventsOf_append, if_pos rfl]

theorem Tracks.effect_own (h : Tracks (chaosKey agent) s) (he : Effect s agent s') :
    Tracks (chaosKey agent) s' := by
  cases he with
  | nothing => exact h
  | limit b e hlimit hb =>
    have hevents : (s.setBucket (chaosKey agent) b e).eventsOf (chaosKey agent) =
        s.eventsOf (chaosKey agent) ++ [e] := eventsOf_own s _ _ e
    refine ⟨?_, fun stage => ?_⟩
    · rw [hevents, bucketAfter_concat, ← h.bucket, hb, s.counters_setBucket]
    · rw [hevents, reachedAfter_concat]
      cases e with
      | window start => exact h.count stage
      | passed => exact h.count stage
      | limited => exact h.count stage
      | reset => simp [Event.isLimit] at hlimit
      | reached stage' => simp [Event.isLimit] at hlimit
  | reached stage' =>
    have hevents : ∀ n, (s.setCount (chaosKey agent) stage' n).eventsOf (chaosKey agent) =
        s.eventsOf (chaosKey agent) ++ [.reached stage'] := fun n => eventsOf_own s _ _ _
    refine ⟨?_, fun stage => ?_⟩
    · rw [hevents, bucketAfter_concat]
      exact h.bucket
    · rw [hevents, reachedAfter_concat, s.counters_setCount]
      by_cases hstage : stage = stage'
      · subst hstage
        simp [Event.onReached, h.count stage]
      · simp [Event.onReached, hstage, Ne.symm hstage, h.count stage]
  | global action n =>
    refine ⟨?_, fun stage => ?_⟩
    · exact h.bucket
    · exact h.count stage
  | reset =>
    have hevents : (resetAgent s agent.tenantID agent.name).eventsOf (chaosKey agent) =
        s.eventsOf (chaosKey agent) ++ [.reset] := eventsOf_own s _ _ _
    have hempty : (resetAgent s agent.tenantID agent.name).counters (chaosKey agent) = .empty :=
      counters_resetAgent agent.tenant_noNul agent.name_noNul s
    refine ⟨?_, fun stage => ?_⟩
    · rw [hevents, bucketAfter_concat, hempty]
      rfl
    · rw [hevents, reachedAfter_concat, hempty]
      rfl

theorem Tracks.effect (ht : 0 ∉ tenantID) (hn : 0 ∉ name) (h : Tracks (scopeKey tenantID name) s)
    (he : Effect s agent s') : Tracks (scopeKey tenantID name) s' := by
  by_cases hown : tenantID = agent.tenantID ∧ name = agent.name
  · obtain ⟨rfl, rfl⟩ := hown
    exact h.effect_own he
  · have hcounters := he.counters_ne ht hn hown
    have hevents := he.eventsOf_ne fun heq => hown (scopeKey_inj ht agent.tenant_noNul heq.symm)
    exact ⟨by rw [hcounters, hevents, h.bucket], fun stage => by rw [hcounters, hevents, h.count]⟩

end

/-! ## Runs -/

section
variable {F : Type}

def Task.Limited : Task F → Prop
  | .before _ (.clock rl) | .before _ (.limit rl _) => 0 < rl.requests
  | _ => True

theorem start_limited (call : Call F) : (Task.start call).Limited := by
  cases call with
  | before agent =>
    rw [Task.start, BeforePc.first]
    split
    · trivial
    · split
      · trivial
      · split
        next hpos =>
          exact hpos.1
        · trivial
  | after agent => trivial
  | reset agent => trivial

variable [GoFloat F] {settings : Settings F}

theorem Task.Limited.next {t : Task F} (h : t.Limited) (ch : Choice F) (s : Shared) :
    (t.next settings ch s).2.Limited := by
  cases t with
  | before agent pc =>
    rw [Task.next]
    cases pc with
    | clock rl => exact h
    | limit rl now =>
      simp only [beforeStep]
      cases (checkRateLimit s (chaosKey agent) rl now).2 <;> trivial
    | errorTrigger e =>
      simp only [beforeStep]
      split <;> trivial
    | errors | connection =>
      simp only [beforeStep, errorsStep, connectionStep]
      split
      · trivial
      · split
        · split
          · split <;> trivial
          · trivial
        · trivial
    | connectionTrigger c => trivial
    | done err => trivial
  | after agent delay => cases delay <;> trivial
  | reset agent finished => cases finished <;> trivial

/-- In every state of every run the counters are what the events make them. -/
theorem run_tracks (settings : Settings F) {tenantID name : Bytes} (ht : 0 ∉ tenantID) (hn : 0 ∉ name)
    (acts : List (Act (Call F) (Choice F))) :
    Holds (Tracks (scopeKey tenantID name)) (fun _ _ t => Task.Limited t)
      ((chaos settings).run opened acts) := by
  refine run_induction (P := Holds (Tracks (scopeKey tenantID name))
    fun _ _ t => Task.Limited t) (fun w a h => ?_) ⟨⟨rfl, fun _ => rfl⟩, by simp [opened]⟩ acts
  refine h.act (fun call _ => start_limited call) (fun i choice t _ hi => ?_)
    fun i choice t j u _ _ hj _ => h.2 j u hj
  exact ⟨h.1.effect ht hn ((next_stepOf choice t).effect w.shared), (h.2 i t hi).next choice w.shared⟩

/-! ## The decisions -/

/-- `fail_first` faults the calls that reach the stage before it is used up. -/
theorem shouldTrigger_exact {s : Shared} {key : Bytes} (h : Tracks key s) (ch : Choice F) (rate : F)
    {failFirst : Int} (hpos : 0 < failFirst) (stage : Stage) :
    (shouldTrigger ch s key rate failFirst stage).2 =
      decide ((reachedAfter stage (s.eventsOf key) : Int) < failFirst) := by
  have hcount : ((s.injector.counts stage).lookup key).getD 0 =
      reachedAfter stage (s.eventsOf key) := h.count stage
  rw [shouldTrigger, if_pos hpos, decide_eq_decide]
  omega

end

section
variable {s : Shared} {key : Bytes} {rl : ChaosRateLimitConfig} {now : Int}

theorem millisecond_lt (ms : Int) : millisecond ms < 2 ^ 63 := by
  have := Int.bmod_lt (x := ms * 1000000) (m := 2 ^ 64) (by decide)
  simp only [millisecond, duration]
  omega

/-- A call that passes is one of at most `requests` since the window started. -/
theorem checkRateLimit_passes (h : Tracks key s) (hpos : 0 < rl.requests)
    (hpass : (checkRateLimit s key rl now).2 = none) :
    (passesAfter ((checkRateLimit s key rl now).1.eventsOf key) : Int) ≤ rl.requests := by
  have hset : ∀ b e, (s.setBucket key b e).eventsOf key = s.eventsOf key ++ [e] := fun b e =>
    eventsOf_own s _ _ e
  have hbucket : s.injector.buckets.lookup key = bucketAfter (s.eventsOf key) := h.bucket
  unfold checkRateLimit at hpass ⊢
  cases hb : s.injector.buckets.lookup key with
  | none =>
    simp only [hset, passesAfter_concat, Event.onPasses]
    omega
  | some bucket =>
    have hle := passesAfter_le _ (hbucket.symm.trans hb)
    simp only [hb] at hpass ⊢
    split
    · simp only [hset, passesAfter_concat, Event.onPasses]
      omega
    next hrunning =>
      rw [if_neg hrunning] at hpass
      split
      next hover =>
        simp [hover] at hpass
      · simp only [hset, passesAfter_concat, Event.onPasses]
        omega

/-- What a refused call is told, where the clock was not read before the window started. -/
theorem checkRateLimit_limited {err : ChaosError}
    (horder : ∀ b, s.injector.buckets.lookup key = some b → b.windowStart ≤ now)
    (hlimited : (checkRateLimit s key rl now).2 = some err) :
    err.statusCode = 429 ∧ 0 < err.retryAfter ∧ err.retryAfter ≤ millisecond rl.windowMs ∧
      ∃ b, ((checkRateLimit s key rl now).1.counters key).bucket = some b ∧
        now + err.retryAfter = b.windowStart + millisecond rl.windowMs := by
  unfold checkRateLimit at hlimited ⊢
  cases hb : s.injector.buckets.lookup key with
  | none => simp [hb] at hlimited
  | some bucket =>
    have hstart := horder bucket hb
    have hwindow := millisecond_lt rl.windowMs
    simp only [hb] at hlimited ⊢
    split
    next hover =>
      simp [hover] at hlimited
    next hrunning =>
      rw [if_neg hrunning] at hlimited
      split
      next hover =>
        rw [if_pos hover, some.injEq] at hlimited
        have helapsed : timeSub now bucket.windowStart = now - bucket.windowStart :=
          by unfold timeSub at *; omega
        rw [helapsed] at hlimited hrunning
        have hretry : duration (millisecond rl.windowMs - (now - bucket.windowStart)) =
            millisecond rl.windowMs - (now - bucket.windowStart) :=
          Int.bmod_eq_of_le (by omega) (by omega)
        subst hlimited
        refine ⟨rfl, ?_, ?_, { bucket with count := bucket.count + 1 }, ?_, ?_⟩
        · simp only [rateLimitError]
          omega
        · simp only [rateLimitError]
          omega
        · rw [s.counters_setBucket]
        · simp only [rateLimitError]
          omega
      next hover =>
        simp [hover] at hlimited

/-- A call that comes when the window is over passes. -/
theorem checkRateLimit_admits
    (hover : ∀ b, s.injector.buckets.lookup key = some b →
      b.windowStart + millisecond rl.windowMs ≤ now) : (checkRateLimit s key rl now).2 = none := by
  unfold checkRateLimit
  cases hb : s.injector.buckets.lookup key with
  | none => rfl
  | some bucket =>
    have hend := hover bucket hb
    have hwindow := millisecond_lt rl.windowMs
    have helapsed : millisecond rl.windowMs ≤ timeSub now bucket.windowStart := by
      unfold timeSub
      omega
    simp [helapsed]

end

/-! ## Every run -/

section
variable {F : Type}

/-- The clock a call has read on its way to the lock of the rate limit. -/
def Task.reading : Task F → Option (Bytes × Int)
  | .before agent (.limit _ now) => some (chaosKey agent, now)
  | _ => none

/-- A call does not come to the rate limit with a clock read before the window of its agent
started. -/
def InOrder (w : Pool Shared (Task F)) : Act (Call F) (Choice F) → Prop
  | .start _ => True
  | .step i _ => ∀ r ∈ (w.calls[i]?).bind Task.reading, ∀ b ∈ w.shared.injector.buckets.lookup r.1,
      b.windowStart ≤ r.2

instance (w : Pool Shared (Task F)) : ∀ a : Act (Call F) (Choice F), Decidable (InOrder w a)
  | .start _ => inferInstanceAs (Decidable True)
  | .step i _ => inferInstanceAs (Decidable (∀ r ∈ (w.calls[i]?).bind Task.reading,
      ∀ b ∈ w.shared.injector.buckets.lookup r.1, b.windowStart ≤ r.2))

variable [GoFloat F] {settings : Settings F}

theorem call_step {w : Pool Shared (Task F)} {i : Nat} {agent : Agent F} {pc : BeforePc F}
    (h : w.calls[i]? = some (.before agent pc)) (choice : Choice F) :
    ((chaos settings).act w (.step i choice)).calls[i]? =
      some (.before agent (beforeStep settings choice w.shared agent pc).2) :=
  (act_step h choice).2

/-- In any interleaving the calls for an agent of a tenant go on from a reset as they would
alone; a stage faults the calls that reach it since the reset until `fail_first` is used up;
the rate limit lets at most `requests` calls pass in a window, and a call it refuses is told
when the window ends. -/
theorem counters_exact {tenantID name : Bytes} (ht : 0 ∉ tenantID) (hn : 0 ∉ name)
    {acts : List (Act (Call F) (Choice F))} (horder : (chaos settings).Steps InOrder opened acts) :
    (∀ pre post, acts = pre ++ post → StartsOver settings tenantID name pre →
      ((chaos settings).run opened acts).calls.filter (owned tenantID name) =
        ((chaos settings).run
          ⟨⟨newChaosInjector, []⟩,
            ((chaos settings).run opened pre).calls.filter (owned tenantID name)⟩
          ((chaos settings).ownActs (owned tenantID name) ((chaos settings).run opened pre)
            post)).calls) ∧
    ∀ pre i choice post w w', acts = pre ++ .step i choice :: post →
      w = (chaos settings).run opened pre → w' = (chaos settings).act w (.step i choice) →
      ∀ agent : Agent F, agent.tenantID = tenantID → agent.name = name →
      (∀ e, w.calls[i]? = some (.before agent (.errorTrigger e)) → 0 < e.failFirst →
        w'.calls[i]? = some (.before agent
          (if (reachedAfter .error (w.shared.eventsOf (scopeKey tenantID name)) : Int) < e.failFirst
            then .done (some (errorFault settings choice e)) else .connection))) ∧
      (∀ c, w.calls[i]? = some (.before agent (.connectionTrigger c)) → 0 < c.failFirst →
        w'.calls[i]? = some (.before agent (.done
          (if (reachedAfter .connection (w.shared.eventsOf (scopeKey tenantID name)) : Int) <
              c.failFirst
            then some (connectionFault c) else none)))) ∧
      ∀ rl now, w.calls[i]? = some (.before agent (.limit rl now)) →
        (w'.calls[i]? = some (.before agent .errors) ∧
          (passesAfter (w'.shared.eventsOf (scopeKey tenantID name)) : Int) ≤ rl.requests) ∨
        ∃ err, w'.calls[i]? = some (.before agent (.done (some err))) ∧
          err.statusCode = 429 ∧ 0 < err.retryAfter ∧ err.retryAfter ≤ millisecond rl.windowMs ∧
          ∀ more later quiet, later = (chaos settings).run w' more →
            later.shared.eventsOf (scopeKey tenantID name) =
              w'.shared.eventsOf (scopeKey tenantID name) ++ quiet →
            (∀ e ∈ quiet, e.isLimit = false) →
            ∀ j choice' agent' rl' now',
              later.calls[j]? = some (.before agent' (.limit rl' now')) →
              agent'.tenantID = tenantID → agent'.name = name → rl'.windowMs = rl.windowMs →
              now + err.retryAfter ≤ now' →
              ((chaos settings).act later (.step j choice')).calls[j]? =
                some (.before agent' .errors) := by
  refine ⟨fun pre post hacts hreset => hacts ▸ owned_calls_alone ht hn hreset post, ?_⟩
  rintro pre i choice post w w' rfl rfl rfl agent rfl rfl
  have htracks := run_tracks settings ht hn pre
  refine ⟨fun e hi hpos => ?_, fun c hi hpos => ?_, fun rl now hi => ?_⟩
  · have hfault := shouldTrigger_exact htracks.1 choice e.rate hpos .error
    rw [call_step hi, beforeStep]
    simp [chaosKey, hfault]
  · have hfault := shouldTrigger_exact htracks.1 choice c.rate hpos .connection
    rw [call_step hi, beforeStep]
    simp [chaosKey, hfault]
  · have hpos : 0 < rl.requests := htracks.2 i _ hi
    have hinOrder : ∀ b, ((chaos settings).run opened pre).shared.injector.buckets.lookup
        (chaosKey agent) = some b → b.windowStart ≤ now := by
      intro b hb
      have hstep := (steps_append.mp horder).2.1
      exact hstep (chaosKey agent, now) (by simp [hi, Task.reading]) b hb
    have hshared : ((chaos settings).act ((chaos settings).run opened pre) (.step i choice)).shared =
        (checkRateLimit ((chaos settings).run opened pre).shared (chaosKey agent) rl now).1 :=
      (act_step hi choice).1
    rw [call_step hi, beforeStep]
    cases hresult : (checkRateLimit ((chaos settings).run opened pre).shared (chaosKey agent) rl now).2 with
    | none =>
      refine .inl ⟨rfl, ?_⟩
      rw [hshared]
      exact checkRateLimit_passes htracks.1 hpos hresult
    | some err =>
      obtain ⟨hcode, hlow, hhigh, b, hb, hend⟩ := checkRateLimit_limited hinOrder hresult
      refine .inr ⟨err, rfl, hcode, hlow, hhigh, ?_⟩
      rintro more later quiet rfl hquiet hnone j choice' agent' rl' now' hj htenant hname hwindow hlate
      have hkey : chaosKey agent' = scopeKey agent.tenantID agent.name := by
        rw [chaosKey, htenant, hname]
      have hafter := (run_tracks settings ht hn (pre ++ [.step i choice])).1
      have hlater := (run_tracks settings ht hn (pre ++ .step i choice :: more)).1
      rw [run_append, run_cons, run_nil] at hafter
      rw [run_append, run_cons] at hlater
      rw [call_step hj, beforeStep, checkRateLimit_admits]
      intro b' hb'
      rw [hwindow]
      -- the window is the one the refused call saw, or a reset has dropped it
      rcases bucketAfter_append_quiet _ quiet hnone with hsame | hdropped
      · have heq : some b' = some b := by
          rw [← hb', hkey, ← hb, ← hshared]
          exact (hlater.bucket.trans (by rw [hquiet, hsame])).trans hafter.bucket.symm
        obtain rfl : b' = b := some.inj heq
        omega
      · have hnothing := hlater.bucket.trans (by rw [hquiet, hdropped])
        rw [hkey] at hb'
        exact absurd (hb'.symm.trans hnothing) (by simp)

end

/-! ### A limit of one call in ten milliseconds -/

section Example

def limitedAgent : Agent Rat where
  tenantID := bytes "acme"
  name := bytes "support"
  chaos := some ⟨true, none, none, some ⟨1, 10⟩, none⟩
  tenant_noNul := by decide +kernel
  name_noNul := by decide +kernel

def noPolicy : Settings Rat := ⟨none, fun _ _ => 0, fun _ => ""⟩

def stepAt (i : Nat) (ms : Int) : Act (Call Rat) (Choice Rat) := .step i ⟨ms * 1000000, 0, 0, 0⟩

def sequential : List (Act (Call Rat) (Choice Rat)) :=
  [.start (.before limitedAgent), stepAt 0 0, stepAt 0 0, .start (.before limitedAgent), stepAt 1 5]

/-- The second call reads the clock while the first has yet to take the lock. -/
def overtaken : List (Act (Call Rat) (Choice Rat)) :=
  [.start (.before limitedAgent), stepAt 0 0, .start (.before limitedAgent), stepAt 1 5, stepAt 1 5,
    stepAt 0 5]

theorem counters_exact_sequential :
    (chaos noPolicy).Steps InOrder opened (sequential ++ [stepAt 1 5]) ∧
      ∃ err, ((chaos noPolicy).run opened (sequential ++ [stepAt 1 5])).calls[1]? =
          some (.before limitedAgent (.done (some err))) ∧
        0 < err.retryAfter ∧ err.retryAfter ≤ millisecond 10 := by
  have horder : (chaos noPolicy).Steps InOrder opened (sequential ++ [stepAt 1 5]) := by
    decide +kernel
  refine ⟨horder, ?_⟩
  have hlimit : ((chaos noPolicy).run opened sequential).calls[1]? =
      some (.before limitedAgent (.limit ⟨1, 10⟩ 5000000)) := rfl
  rcases ((counters_exact limitedAgent.tenant_noNul limitedAgent.name_noNul horder).2 sequential 1 _ []
    _ _ rfl rfl rfl limitedAgent rfl rfl).2.2 _ _ hlimit with ⟨hpassed, -⟩ | ⟨err, hrefused, -, hlow, hhigh, -⟩
  · have hrefused : ((chaos noPolicy).run opened (sequential ++ [stepAt 1 5])).calls[1]? =
        some (.before limitedAgent (.done (some (rateLimitError 5000000)))) := rfl
    exact absurd (hrefused.symm.trans hpassed) (by simp)
  · exact ⟨err, hrefused, hlow, hhigh⟩

def Nondecreasing (acts : List (Act (Call Rat) (Choice Rat))) : Prop :=
  (acts.filterMap fun | .start _ => none | .step _ choice => some choice.now).Pairwise (· ≤ ·)

instance (acts : List (Act (Call Rat) (Choice Rat))) : Decidable (Nondecreasing acts) :=
  inferInstanceAs (Decidable (List.Pairwise ..))

/-- The call that is overtaken is told to wait for longer than the window. -/
theorem retry_after_exceeds_window :
    Nondecreasing overtaken ∧
      ((chaos noPolicy).run opened overtaken).calls[0]? =
        some (.before limitedAgent (.done (some (rateLimitError 15000000)))) ∧
      millisecond 10 < 15000000 :=
  ⟨by decide +kernel, rfl, by decide⟩

end Example

end MockAgents.Engine
