import MockAgents.Quota.Enforcer
/-!
# Where an added amount is

An amount is on its way in a call, unsynced in a replica, or in the ledger, under the month
its `AddSpend` read.  Each step moves it between these places; only the roll-over of a counter
with unsynced spend loses it.
-/

namespace MockAgents.Quota

open Lib Finset Shared System

variable {n : Nat}

/-! ## Counters -/

namespace Enforcer

variable (e : Enforcer) (T M : String)

def pending : ℚ := (e.counterForMonth T M).unsynced

def cached : ℚ := (e.counterForMonth T M).usd

/-- Rolling the tenant's counter over to a month drops no unsynced spend. -/
def RollsClean (tenantID month : String) : Prop :=
  ∀ c ∈ e.spendCache tenantID, c.month = month ∨ c.unsynced = 0

instance (tenantID month : String) : Decidable (e.RollsClean tenantID month) := by
  unfold RollsClean
  infer_instance

/-- The counter of a month is a new one or the cached one of the month. -/
theorem counterForMonth_rec {P : Counter → Prop} (hnew : P (newCounter M))
    (h : ∀ k ∈ e.spendCache T, k.month = M → P k) : P (e.counterForMonth T M) := by
  unfold counterForMonth
  split
  · exact hnew
  next k hk =>
    split
    next hm => exact h k hk hm
    · exact hnew

@[simp] theorem counterForMonth_month : (e.counterForMonth T M).month = M :=
  e.counterForMonth_rec T M (P := fun c => c.month = M) rfl fun _ _ h => h

variable {e}
variable {tenantID month : String}

/-- What is counted under a month stays after a critical section of another month, unless its
counter was rolled over. -/
theorem counterForMonth_store (f : Counter → ℚ) (hf : f (newCounter M) = 0)
    (h : M ≠ month → f (e.counterForMonth tenantID M) = 0) {c : Counter} (hc : c.month = month) :
    f ((e.store tenantID c).counterForMonth T M) =
      if T = tenantID ∧ M = month then f c else f (e.counterForMonth T M) := by
  by_cases hT : T = tenantID
  · subst hT
    have hstored : (e.store T c).counterForMonth T M = if month = M then c else newCounter M := by
      simp [counterForMonth, store, hc]
    rw [hstored]
    by_cases hM : M = month
    · simp [hM]
    · rw [if_neg (Ne.symm hM), if_neg (fun hand => hM hand.2), hf, h hM]
  · simp [counterForMonth, store, hT]

theorem RollsClean.pending_eq_zero (h : e.RollsClean tenantID month) (hne : M ≠ month) :
    e.pending tenantID M = 0 :=
  e.counterForMonth_rec tenantID M (P := fun c => c.unsynced = 0) rfl fun c hc hm =>
    (h c hc).resolve_left fun heq => hne (hm.symm.trans heq)

theorem RollsClean.pending_store (h : e.RollsClean tenantID month) {c : Counter}
    (hc : c.month = month) :
    (e.store tenantID c).pending T M =
      if T = tenantID ∧ M = month then c.unsynced else e.pending T M :=
  counterForMonth_store T M (·.unsynced) rfl (h.pending_eq_zero M) hc

end Enforcer

/-! ## Sums -/

namespace Shared

variable (s : Shared n) (T M : String)

def pending : ℚ := ∑ r, (s.replicas r).pending T M

def addedTo : ℚ := ((s.added.filter fun a => a.tenantID = T ∧ a.month = M).map (·.usd)).sum

theorem pending_put (r : Fin n) (e : Enforcer) :
    (s.put r e).pending T M = s.pending T M - (s.replicas r).pending T M + e.pending T M := by
  have hupdate : (fun x => ((s.put r e).replicas x).pending T M) =
      Function.update (fun x => (s.replicas x).pending T M) r (e.pending T M) := by
    funext x
    by_cases hx : x = r
    · subst hx
      simp [put]
    · simp [put, hx]
  have hrest : s.pending T M = (s.replicas r).pending T M +
      ∑ x ∈ univ \ {r}, (s.replicas x).pending T M := by
    rw [← erase_eq]
    exact (add_sum_erase _ _ (mem_univ r)).symm
  rw [pending, hupdate, sum_update_of_mem (mem_univ r), hrest]
  ring

/-- A critical section trades the unsynced spend of its counter. -/
theorem pending_section {r : Fin n} {tenantID month : String}
    (h : (s.replicas r).RollsClean tenantID month) {c : Counter} (hc : c.month = month) :
    (s.put r ((s.replicas r).store tenantID c)).pending T M = s.pending T M +
      if T = tenantID ∧ M = month then c.unsynced - (s.replicas r).pending tenantID month else 0 := by
  rw [pending_put, h.pending_store T M hc]
  by_cases hTM : T = tenantID ∧ M = month
  · obtain ⟨rfl, rfl⟩ := hTM
    simp only [and_self, if_true]
    ring
  · simp only [hTM, if_false]
    ring

theorem addSpend_ledger (fails : Bool) (tenantID month : String) (usd : ℚ) :
    (s.addSpend fails tenantID month usd).1.ledger T M =
      s.ledger T M + if T = tenantID ∧ M = month then if fails then 0 else usd else 0 := by
  unfold addSpend
  cases fails with
  | true => simp
  | false =>
    by_cases hT : T = tenantID
    · subst hT
      by_cases hM : M = month
      · subst hM
        simp
      · simp [hM]
    · simp [hT]

theorem sum_filter_concat (p : Added n → Prop) [DecidablePred p] (l : List (Added n)) (a : Added n) :
    (((l ++ [a]).filter (p ·)).map (·.usd)).sum =
      ((l.filter (p ·)).map (·.usd)).sum + if p a then a.usd else 0 := by
  by_cases h : p a <;> simp [List.filter_append, h]

theorem addedTo_append (a : Added n) :
    addedTo { s with added := s.added ++ [a] } T M =
      s.addedTo T M + if T = a.tenantID ∧ M = a.month then a.usd else 0 := by
  simp only [addedTo, sum_filter_concat, eq_comm (a := T), eq_comm (a := M)]

end Shared

/-! ## Steps -/

def Task.touches : Task n → Option (Fin n × String × String)
  | .claim r tenantID month _ | .settle r tenantID month .. | .bump r tenantID month _
  | .look r tenantID month _ | .refresh r tenantID month .. => some (r, tenantID, month)
  | _ => none

def Task.update (c : Choice) (k : Counter) : Task n → Counter
  | .claim .. => { k with unsynced := 0 }
  | .settle _ _ _ _ _ (some total) | .refresh _ _ _ _ (some total) =>
    { k with usd := total + k.unsynced, expiry := c.now + spendCacheTTL }
  | .settle _ _ _ usd pending none =>
    { k with unsynced := k.unsynced + (usd + pending), usd := k.usd + usd }
  | .bump _ _ _ usd => { k with usd := k.usd + usd }
  | _ => k

@[simp] theorem Task.update_month (c : Choice) (k : Counter) (t : Task n) :
    (t.update c k).month = k.month := by
  unfold Task.update
  split <;> rfl

variable {t : Task n} {w : Pool (Shared n) (Task n)}

/-- A step with a critical section changes its counter and no more. -/
theorem Task.next_of_touches {r : Fin n} {tenantID month : String}
    (h : t.touches = some (r, tenantID, month)) (env : Env) (c : Choice) (s : Shared n) :
    (t.next env c s).1 = s.put r ((s.replicas r).store tenantID
      (t.update c ((s.replicas r).counterForMonth tenantID month))) := by
  cases t with
  | claim | bump | look =>
    cases h
    rfl
  | settle r tenantID month usd pending total =>
    cases h
    cases total <;> rfl
  | refresh r tenantID month purpose total =>
    cases h
    cases total <;> rfl
  | add | write | check | usage | current | fetch | returned => cases h

theorem Task.next_replicas (h : t.touches = none) (env : Env) (c : Choice) (s : Shared n) :
    (t.next env c s).1.replicas = s.replicas := by
  cases t with
  | claim | bump | look | settle | refresh => cases h
  | add | usage | current | fetch | returned => rfl
  | write r tenantID month usd pending =>
    simp only [Task.next, addSpend]
    split <;> rfl
  | check r tenantID =>
    simp only [Task.next]
    split <;> rfl

/-- What holds of every cached counter is kept by a step whose counter gets it. -/
theorem Task.next_counters {P : Counter → Prop} {s : Shared n}
    (h : ∀ r T, ∀ k ∈ (s.replicas r).spendCache T, P k) {c : Choice}
    (hupdate : ∀ x ∈ t.touches, P (t.update c ((s.replicas x.1).counterForMonth x.2.1 x.2.2)))
    (env : Env) : ∀ r T, ∀ k ∈ ((t.next env c s).1.replicas r).spendCache T, P k := by
  intro r T k hk
  cases htouches : t.touches with
  | none =>
    rw [t.next_replicas htouches] at hk
    exact h r T k hk
  | some x =>
    obtain ⟨r', tenantID, month⟩ := x
    rw [t.next_of_touches htouches] at hk
    by_cases hr : r = r'
    · subst hr
      by_cases hT : T = tenantID
      · subst hT
        obtain rfl : _ = k := by simpa [put, Enforcer.store] using hk
        exact hupdate _ htouches
      · exact h r T k (by simpa [put, Enforcer.store, hT] using hk)
    · exact h r T k (by simpa [put, hr] using hk)

def Shared.Backed (backend : Bool) (s : Shared n) : Prop :=
  ∀ r, (s.replicas r).spendBackend = backend

theorem Shared.Backed.next {backend : Bool} {s : Shared n} (h : s.Backed backend) (env : Env)
    (c : Choice) (t : Task n) : (t.next env c s).1.Backed backend := by
  intro r
  cases htouches : t.touches with
  | none =>
    rw [t.next_replicas htouches]
    exact h r
  | some x =>
    obtain ⟨r', tenantID, month⟩ := x
    rw [t.next_of_touches htouches]
    by_cases hr : r = r'
    · subst hr
      simpa [put, Enforcer.store] using h r
    · simpa [put, hr] using h r

/-! ## What is on its way -/

/-- What a call carries under a month: its own amount and the spend it claimed, until the
ledger has them. -/
def Task.carries (T M : String) : Task n → ℚ
  | .claim _ tenantID month usd => if T = tenantID ∧ M = month then usd else 0
  | .write _ tenantID month usd pending | .settle _ tenantID month usd pending none =>
    if T = tenantID ∧ M = month then usd + pending else 0
  | _ => 0

/-- How a call starts: at its end, or before anything is counted. -/
inductive Task.Opening : Task n → Prop
  | add (r : Fin n) (tenantID : String) {usd : ℚ} (h : 0 < usd) : Opening (.add r tenantID usd)
  | check (r : Fin n) (tenantID : String) : Opening (.check r tenantID)
  | usage (r : Fin n) (tenantID : String) : Opening (.usage r tenantID)
  | returned (result : Result) : Opening (.returned result)

theorem Task.opening_start (call : Call n) : (Task.start call).Opening := by
  cases call with
  | addSpend r tenantID usd =>
    simp only [Task.start]
    split
    · exact .returned _
    next h =>
      simp only [Bool.or_eq_true, decide_eq_true_eq, not_or, not_le] at h
      exact .add r tenantID h.2
  | checkSpend r tenantID =>
    simp only [Task.start]
    split
    · exact .returned _
    · exact .check r tenantID
  | usage r tenantID => exact .usage r tenantID

theorem Task.Opening.carries (h : t.Opening) (T M : String) : t.carries T M = 0 := by
  cases h <;> rfl

/-- A critical section moves spend between its call and its counter. -/
theorem Task.carries_of_touches {r : Fin n} {tenantID month : String}
    (h : t.touches = some (r, tenantID, month)) (env : Env) (c : Choice) (s : Shared n)
    (T M : String) :
    ((t.next env c s).2.carries T M +
        if T = tenantID ∧ M = month then
          (t.update c ((s.replicas r).counterForMonth tenantID month)).unsynced
        else 0) =
      t.carries T M + if T = tenantID ∧ M = month then (s.replicas r).pending tenantID month else 0 := by
  cases t with
  | claim r tenantID month usd =>
    cases h
    simp only [Task.next, Enforcer.claim, Task.carries, Task.update, Enforcer.pending]
    split <;> ring
  | settle r tenantID month usd pending total =>
    cases h
    cases total with
    | some total => rfl
    | none =>
      simp only [Task.next, Task.carries, Task.update, Enforcer.pending]
      split <;> ring
  | bump r tenantID month usd =>
    cases h
    rfl
  | look r tenantID month purpose =>
    cases h
    simp only [Task.next, Task.update]
    split <;> rfl
  | refresh r tenantID month purpose total =>
    cases h
    cases total <;> rfl
  | add | write | check | usage | current | fetch | returned => cases h

theorem Task.write_balance (env : Env) (c : Choice) (s : Shared n) (r : Fin n)
    (tenantID month : String) (usd pending : ℚ) (T M : String) :
    (Task.next env c s (.write r tenantID month usd pending)).1.ledger T M +
        (Task.next env c s (.write r tenantID month usd pending)).2.carries T M =
      s.ledger T M + (Task.write (n := n) r tenantID month usd pending).carries T M := by
  simp only [Task.next, s.addSpend_ledger, Task.carries]
  cases hfails : c.fails <;> simp [addSpend]

/-- A step that rolls a counter over finds nothing unsynced in it. -/
def Shared.Clean (s : Shared n) (t : Task n) : Prop :=
  ∀ x ∈ t.touches, (s.replicas x.1).RollsClean x.2.1 x.2.2

/-- **A step moves amounts and loses none**, unless it rolls over a counter with unsynced
spend. -/
theorem Task.next_balance (env : Env) (c : Choice) {s : Shared n} (hbackend : s.Backed true)
    (hclean : s.Clean t) (T M : String) :
    (t.next env c s).1.ledger T M + (t.next env c s).1.pending T M +
        (t.next env c s).2.carries T M + s.addedTo T M =
      s.ledger T M + s.pending T M + t.carries T M + (t.next env c s).1.addedTo T M := by
  cases htouches : t.touches with
  | some x =>
    obtain ⟨r, tenantID, month⟩ := x
    have hroll : (s.replicas r).RollsClean tenantID month := hclean _ htouches
    have hcarries := t.carries_of_touches htouches env c s T M
    rw [t.next_of_touches htouches, s.pending_section T M hroll (by simp)]
    show s.ledger T M + _ + _ + s.addedTo T M = _ + s.addedTo T M
    by_cases hTM : T = tenantID ∧ M = month
    · rw [if_pos hTM] at hcarries ⊢
      rw [if_pos hTM] at hcarries
      linarith
    · rw [if_neg hTM] at hcarries ⊢
      rw [if_neg hTM] at hcarries
      linarith
  | none =>
    have hpending : (t.next env c s).1.pending T M = s.pending T M := by
      rw [pending, t.next_replicas htouches, pending]
    rw [hpending]
    cases t with
    | claim | bump | look | settle | refresh => cases htouches
    | add r tenantID usd =>
      simp only [Task.next, hbackend r, if_true, s.addedTo_append, Task.carries]
      ring
    | write r tenantID month usd pending =>
      have hwrite := Task.write_balance env c s r tenantID month usd pending T M
      have hadded : (Task.next env c s (.write r tenantID month usd pending)).1.addedTo T M =
          s.addedTo T M := by
        simp only [Task.next, addSpend]
        split <;> rfl
      rw [hadded]
      linarith
    | check r tenantID =>
      simp only [Task.next]
      split <;> rfl
    | usage | current | fetch | returned => rfl

/-- Every amount added is in the ledger, unsynced or carried, under its month. -/
structure Accounted (w : Pool (Shared n) (Task n)) : Prop where
  backed : w.shared.Backed true
  balance : ∀ T M, w.shared.ledger T M + w.shared.pending T M + w.total (Task.carries T M) =
    w.shared.addedTo T M

/-- The counter that an action works on is rolled over clean. -/
def RollsClean (w : Pool (Shared n) (Task n)) : Act (Call n) Choice → Prop
  | .start _ => True
  | .step i _ => ∀ t ∈ w.calls[i]?, w.shared.Clean t

theorem accounted_opened (config : Fin n → Config × (String → Option Config)) :
    Accounted (opened config true) where
  backed := fun _ => rfl
  balance := by
    intro T M
    simp [opened, pending, Enforcer.pending, Enforcer.counterForMonth, Enforcer.newCounter,
      Pool.total, addedTo]

theorem Accounted.act (env : Env) {a : Act (Call n) Choice} (h : Accounted w)
    (hclean : RollsClean w a) : Accounted ((quota env n).act w a) := by
  have hact : ∀ T M, ((quota env n).act w a).shared.Backed true ∧ _ := fun T M => by
    refine act_total (P := fun (s : Shared n) total => s.Backed true ∧
      s.ledger T M + s.pending T M + total = s.addedTo T M) ⟨h.backed, h.balance T M⟩
      (fun call => (Task.opening_start call).carries T M) ?_
    rintro i c t total rfl hi htotal
    have hstep := t.next_balance env c h.backed (hclean t hi) T M
    have hbefore := h.balance T M
    refine ⟨h.backed.next env c t, ?_⟩
    dsimp only [quota] at htotal ⊢
    linarith
  exact ⟨(hact "" "").1, fun T M => (hact T M).2⟩

/-! ## One month -/

def Task.month : Task n → Option String
  | .claim _ _ month _ | .write _ _ month .. | .settle _ _ month .. | .bump _ _ month _
  | .look _ _ month _ | .fetch _ _ month _ | .refresh _ _ month .. => some month
  | _ => none

def InMonth (env : Env) (m : String) : Act (Call n) Choice → Prop
  | .start _ => True
  | .step _ c => env.monthKey c.now = m

/-- All that is counted, carried or added is of one month. -/
def OfMonth (m : String) : Pool (Shared n) (Task n) → Prop :=
  System.Holds
    (fun s => (∀ r T, ∀ k ∈ (s.replicas r).spendCache T, k.month = m) ∧ ∀ a ∈ s.added, a.month = m)
    (fun _ _ t => ∀ x ∈ t.month, x = m)

theorem Task.month_of_touches {x : Fin n × String × String} (h : x ∈ t.touches) :
    t.month = some x.2.2 := by
  cases t with
  | claim | bump | look | settle | refresh =>
    cases h
    rfl
  | add | write | check | usage | current | fetch | returned => cases h

theorem Task.Opening.month (h : t.Opening) : t.month = none := by
  cases h <;> rfl

theorem Task.month_next (env : Env) (c : Choice) (s : Shared n) (t : Task n) :
    ∀ x ∈ (t.next env c s).2.month, x = env.monthKey c.now ∨ t.month = some x := by
  intro x hx
  cases t with
  | add r tenantID usd =>
    simp only [Task.next] at hx
    split at hx
    all_goals
      cases hx
      exact .inl rfl
  | current r tenantID purpose =>
    cases hx
    exact .inl rfl
  | check r tenantID =>
    simp only [Task.next] at hx
    split at hx <;> cases hx
  | look r tenantID month purpose =>
    simp only [Task.next] at hx
    split at hx
    · cases hx
    · cases hx
      exact .inr rfl
  | claim | write | fetch =>
    cases hx
    exact .inr rfl
  | settle | bump | usage | refresh | returned => cases hx

theorem Task.next_added (env : Env) (c : Choice) (s : Shared n) (t : Task n) :
    ∀ a ∈ (t.next env c s).1.added, a ∈ s.added ∨ a.month = env.monthKey c.now := by
  intro a ha
  cases htouches : t.touches with
  | some x =>
    rw [t.next_of_touches htouches] at ha
    exact .inl ha
  | none =>
    cases t with
    | claim | bump | look | settle | refresh => cases htouches
    | add r tenantID usd =>
      rcases List.mem_append.mp ha with hold | hnew
      · exact .inl hold
      · rw [List.mem_singleton.mp hnew]
        exact .inr rfl
    | write r tenantID month usd pending =>
      simp only [Task.next, addSpend] at ha
      split at ha <;> exact .inl ha
    | check r tenantID =>
      simp only [Task.next] at ha
      split at ha <;> exact .inl ha
    | usage | current | fetch | returned => exact .inl ha

theorem ofMonth_opened (config : Fin n → Config × (String → Option Config)) (backend : Bool)
    (m : String) : OfMonth m (opened config backend) :=
  ⟨⟨fun _ _ _ hk => (by cases hk), fun _ ha => (by cases ha)⟩, fun _ _ ht => (by cases ht)⟩

theorem OfMonth.act {env : Env} {m : String} {a : Act (Call n) Choice} (h : OfMonth m w)
    (ha : InMonth env m a) : OfMonth m ((quota env n).act w a) := by
  refine Holds.act h ?_ ?_ ?_
  · intro call _ x hx
    rw [show ((quota env n).start call).month = none from (Task.opening_start call).month] at hx
    cases hx
  · rintro i c t rfl ht
    refine ⟨⟨Task.next_counters h.1.1 ?_ env, fun b hb => ?_⟩, fun x hx => ?_⟩
    · intro x hx
      rw [Task.update_month, Enforcer.counterForMonth_month]
      exact h.2 i t ht _ (Task.month_of_touches hx)
    · rcases t.next_added env c w.shared b hb with hold | hnew
      · exact h.1.2 b hold
      · exact hnew.trans ha
    · rcases t.month_next env c w.shared x hx with hread | hkept
      · exact hread.trans ha
      · exact h.2 i t ht x hkept
  · exact fun i c t j u _ _ hu _ => h.2 j u hu

theorem OfMonth.clean {m : String} (h : OfMonth m w) {i : Nat} (ht : w.calls[i]? = some t) :
    w.shared.Clean t := by
  intro x hx k hk
  have hmonth : x.2.2 = m := h.2 i t ht _ (Task.month_of_touches hx)
  exact .inl ((h.1.1 x.1 x.2.1 k hk).trans hmonth.symm)

/-! ## No negative amounts -/

def Task.Positive : Task n → Prop
  | .add _ _ usd | .claim _ _ _ usd | .bump _ _ _ usd => 0 < usd
  | .write _ _ _ usd pending | .settle _ _ _ usd pending _ => 0 < usd ∧ 0 ≤ pending
  | _ => True

def NonNegative : Pool (Shared n) (Task n) → Prop :=
  System.Holds (fun s => ∀ r T, ∀ k ∈ (s.replicas r).spendCache T, 0 ≤ k.unsynced)
    (fun _ _ t => t.Positive)

theorem Enforcer.counterForMonth_nonneg {e : Enforcer} {T : String}
    (h : ∀ k ∈ e.spendCache T, 0 ≤ k.unsynced) (M : String) :
    0 ≤ (e.counterForMonth T M).unsynced :=
  e.counterForMonth_rec T M (P := fun c => 0 ≤ c.unsynced) le_rfl fun k hk _ => h k hk

theorem Task.update_nonneg (ht : t.Positive) (c : Choice) {k : Counter} (hk : 0 ≤ k.unsynced) :
    0 ≤ (t.update c k).unsynced := by
  unfold Task.update
  split
  · exact le_refl 0
  · exact hk
  · exact hk
  · have hsum := ht.1
    have hpending := ht.2
    show 0 ≤ _ + _
    linarith
  · exact hk
  · exact hk

theorem Task.Positive.next (ht : t.Positive) (env : Env) (c : Choice) {s : Shared n}
    (h : ∀ r T, ∀ k ∈ (s.replicas r).spendCache T, 0 ≤ k.unsynced) :
    (t.next env c s).2.Positive := by
  cases t with
  | add r tenantID usd =>
    simp only [Task.next]
    split <;> exact ht
  | claim r tenantID month usd =>
    exact ⟨ht, Enforcer.counterForMonth_nonneg (h r tenantID) month⟩
  | write => exact ht
  | check r tenantID =>
    simp only [Task.next]
    split <;> trivial
  | look r tenantID month purpose =>
    simp only [Task.next]
    split <;> trivial
  | settle | bump | usage | current | fetch | refresh | returned => trivial

theorem Task.Opening.positive (h : t.Opening) : t.Positive := by
  cases h with
  | add r tenantID h => exact h
  | check | usage | returned => trivial

theorem NonNegative.act (env : Env) (a : Act (Call n) Choice) (h : NonNegative w) :
    NonNegative ((quota env n).act w a) := by
  refine Holds.act h ?_ ?_ ?_
  · exact fun call _ => (Task.opening_start call).positive
  · rintro i c t rfl ht
    have hpositive : t.Positive := h.2 i t ht
    refine ⟨Task.next_counters h.1 (fun x _ => ?_) env, hpositive.next env c h.1⟩
    exact t.update_nonneg hpositive c (Enforcer.counterForMonth_nonneg (h.1 x.1 x.2.1) x.2.2)
  · exact fun i c t j u _ _ hu _ => h.2 j u hu

/-! ## Conservation -/

/-- **Within one month no amount is lost or counted twice**: ledger, unsynced spend and what
the calls carry make up what was added, and no unsynced spend is negative. -/
theorem spend_conserved (env : Env) (config : Fin n → Config × (String → Option Config))
    (m : String) (acts : List (Act (Call n) Choice)) (hmonth : ∀ a ∈ acts, InMonth env m a) :
    let w := (quota env n).run (opened config true) acts
    (∀ a ∈ w.shared.added, a.month = m) ∧
      (∀ T, w.shared.ledger T m + w.shared.pending T m + w.total (Task.carries T m) =
        w.shared.addedTo T m) ∧
      ∀ r T, ∀ k ∈ (w.shared.replicas r).spendCache T, 0 ≤ k.unsynced := by
  have hsteps : (quota env n).Steps (fun _ a => InMonth env m a) (opened config true) acts :=
    steps_of_forall hmonth
  have hrun := Steps.run_induction
    (P := fun w => OfMonth m w ∧ Accounted w ∧ NonNegative w)
    (fun w a h ha => by
      refine ⟨h.1.act ha, h.2.1.act env ?_, h.2.2.act env a⟩
      cases a with
      | start call => trivial
      | step i c => exact fun t ht => h.1.clean ht)
    hsteps ⟨ofMonth_opened config true m, accounted_opened config,
      fun _ _ _ hk => (by cases hk), fun _ _ ht => (by cases ht)⟩
  exact ⟨hrun.1.1.2, fun T => hrun.2.1.balance T m, hrun.2.2.1⟩

def january : Env := ⟨fun _ => "2026-01"⟩

theorem inMonth_january (a : Act (Call n) Choice) : InMonth january "2026-01" a := by
  cases a with
  | start call => trivial
  | step i c => rfl

def unlimited : Fin n → Config × (String → Option Config) := fun _ => (⟨0⟩, fun _ => none)

/-- A replica's write fails, and its next `AddSpend` claims the unsynced spend while another
replica writes. -/
def failedWrite : List (Act (Call 2) Choice) :=
  [.start (.addSpend 0 "acme" 3), .step 0 ⟨0, false⟩, .step 0 ⟨0, false⟩, .step 0 ⟨0, true⟩,
    .step 0 ⟨0, false⟩, .start (.addSpend 1 "acme" 4), .start (.addSpend 0 "acme" 5),
    .step 1 ⟨1, false⟩, .step 2 ⟨1, false⟩, .step 2 ⟨1, false⟩, .step 1 ⟨1, false⟩,
    .step 1 ⟨1, false⟩]

theorem spend_conserved_failedWrite :
    let w := (quota january 2).run (opened unlimited true) failedWrite
    w.shared.ledger "acme" "2026-01" = 4 ∧
      w.shared.ledger "acme" "2026-01" + w.shared.pending "acme" "2026-01" +
        w.total (Task.carries "acme" "2026-01") = 12 := by
  have hadded : ((quota january 2).run (opened unlimited true) failedWrite).shared.addedTo "acme"
      "2026-01" = 12 := by decide +kernel
  refine ⟨by decide +kernel, ?_⟩
  rw [(spend_conserved january unlimited "2026-01" failedWrite
    fun a _ => inMonth_january a).2.1 "acme", hadded]

end MockAgents.Quota
