import MockAgents.Quota.Proofs.Conservation
/-!
# What the cap check compares

The cached total of a replica against the amounts the replica itself added.  Its own steps
keep the two together; a total that comes back from the ledger replaces the cached one and
may be older than calls that have returned since.
-/

namespace MockAgents.Quota

open Lib Shared Enforcer

variable {n : Nat}
variable {M m month tenantID : String} {s : Shared n} {t : Task n} {r' : Fin n}
variable {w : Pool (Shared n) (Task n)}

/-! ## A replica's own amounts -/

def Shared.addedBy (s : Shared n) (r : Fin n) (T M : String) : ℚ :=
  ((s.added.filter fun a => a.replica = r ∧ a.tenantID = T ∧ a.month = M).map (·.usd)).sum

def Task.adding (r : Fin n) (T M : String) : Task n → ℚ
  | .claim r' tenantID month usd | .write r' tenantID month usd _
  | .settle r' tenantID month usd _ _ | .bump r' tenantID month usd =>
    if r = r' ∧ T = tenantID ∧ M = month then usd else 0
  | _ => 0

/-- A total of the ledger that the next step puts into the cache. -/
def Task.lands : Task n → Option (Fin n × String × String × ℚ)
  | .settle r tenantID month _ _ (some total) | .refresh r tenantID month _ (some total) =>
    some (r, tenantID, month, total)
  | _ => none

theorem Shared.addedBy_append (s : Shared n) (a : Added n) (r : Fin n) (T M : String) :
    addedBy { s with added := s.added ++ [a] } r T M = s.addedBy r T M +
      if r = a.replica ∧ T = a.tenantID ∧ M = a.month then a.usd else 0 := by
  simp only [addedBy, sum_filter_concat, eq_comm (a := r), eq_comm (a := T), eq_comm (a := M)]

theorem Task.Opening.adding (h : t.Opening) (r : Fin n) (T M : String) : t.adding r T M = 0 := by
  cases h <;> rfl

/-! ## Steps -/

/-- A critical section that rolls a counter over drops no cached total of a month. -/
def Shared.KeepsTotal (M : String) (s : Shared n) (t : Task n) : Prop :=
  ∀ x ∈ t.touches, M ≠ x.2.2 → (s.replicas x.1).cached x.2.1 M = 0

theorem Shared.cached_section (hkeeps : s.KeepsTotal M t)
    (h : t.touches = some (r', tenantID, month)) {c : Counter}
    (hc : c.month = month) (r : Fin n) (T : String) :
    ((s.put r' ((s.replicas r').store tenantID c)).replicas r).cached T M =
      if r = r' ∧ T = tenantID ∧ M = month then c.usd else (s.replicas r).cached T M := by
  by_cases hr : r = r'
  · subst hr
    simp only [put, Function.update_self, true_and]
    exact counterForMonth_store T M (·.usd) rfl (hkeeps _ h) hc
  · simp [put, hr]

/-- A critical section that takes no total from the ledger counts an amount or leaves it to
its call. -/
theorem Task.adding_of_touches
    (h : t.touches = some (r', tenantID, month)) (hlands : t.lands = none) (env : Env) (c : Choice)
    (s : Shared n) (r : Fin n) (T M : String) : ((t.next env c s).2.adding r T M +
        if r = r' ∧ T = tenantID ∧ M = month then
          (t.update c ((s.replicas r').counterForMonth tenantID month)).usd
        else 0) = t.adding r T M + if r = r' ∧ T = tenantID ∧ M = month then
          (s.replicas r').cached tenantID month else 0 := by
  cases t with
  | claim r' tenantID month usd =>
    rfl
  | settle r' tenantID month usd pending total =>
    cases h
    cases total with
    | some total => cases hlands
    | none =>
      simp only [Task.next, Task.adding, Task.update, cached]
      split <;> ring
  | bump r' tenantID month usd =>
    cases h
    simp only [Task.next, Task.adding, Task.update, cached]
    split <;> ring
  | look r' tenantID month purpose =>
    simp only [Task.next, Task.update]
    split <;> rfl
  | refresh r' tenantID month purpose total =>
    cases total with
    | some total => cases hlands
    | none => rfl
  | add | write | check | usage | current | fetch | returned => cases h

/-- **A step that takes no total from the ledger keeps cached and added amounts together.** -/
theorem Task.next_cached (env : Env) (c : Choice)
    (hkeeps : s.KeepsTotal M t) (hlands : t.lands = none) (r : Fin n) (T : String) :
    ((t.next env c s).1.replicas r).cached T M + (t.next env c s).2.adding r T M + s.addedBy r T M =
      (s.replicas r).cached T M + t.adding r T M + (t.next env c s).1.addedBy r T M := by
  cases htouches : t.touches with
  | some x =>
    obtain ⟨r', tenantID, month⟩ := x
    have hadding := t.adding_of_touches htouches hlands env c s r T M
    rw [t.next_of_touches htouches, cached_section hkeeps htouches (by simp)]
    show _ + _ + s.addedBy r T M = _ + s.addedBy r T M
    by_cases hkey : r = r' ∧ T = tenantID ∧ M = month
    · obtain ⟨rfl, rfl, rfl⟩ := hkey
      simp only [and_self, if_true] at hadding ⊢
      linarith
    · simp only [hkey, if_false] at hadding ⊢
      linarith
  | none =>
    rw [t.next_replicas htouches]
    cases t with
    | claim | bump | look | settle | refresh => cases htouches
    | add r' tenantID usd =>
      simp only [Task.next, s.addedBy_append]
      split
      all_goals
        simp only [Task.adding]
        ring
    | write r' tenantID month usd pending =>
      have hadded : (Task.next env c s (.write r' tenantID month usd pending)).1.addedBy r T M =
          s.addedBy r T M := by
        simp only [Task.next, addSpend]
        split <;> rfl
      rw [hadded]
      rfl
    | check r' tenantID =>
      simp only [Task.next]
      split <;> rfl
    | usage | current | fetch | returned => rfl

theorem Task.next_lands {total : ℚ} (h : t.lands = some (r', tenantID, month, total)) :
    t.touches = some (r', tenantID, month) ∧
      (∀ c k, (t.update c k).usd = total + k.unsynced) ∧
      ∀ env c s r T M, (t.next env c s).2.adding r T M = 0 ∧
        ((r, T, M) ≠ (r', tenantID, month) → t.adding r T M = 0) := by
  cases t with
  | settle r' tenantID month usd pending total =>
    cases total with
    | none => cases h
    | some total =>
      cases h
      refine ⟨rfl, fun _ _ => rfl, fun env c s r T M => ⟨rfl, fun hne => ?_⟩⟩
      exact if_neg fun hand => hne (by rw [hand.1, hand.2.1, hand.2.2])
  | refresh r' tenantID month purpose total =>
    cases total with
    | none => cases h
    | some total =>
      cases h
      exact ⟨rfl, fun _ _ => rfl, fun env c s r T M => ⟨rfl, fun _ => rfl⟩⟩
  | claim | bump | look | add | write | check | usage | current | fetch | returned => cases h

/-! ## Runs -/

/-- A total that comes back from the ledger covers, with the unsynced spend on top, the
amounts of the replica's calls that have returned and of the call it comes back to. -/
def Covered (w : Pool (Shared n) (Task n)) : Act (Call n) Choice → Prop
  | .start _ => True
  | .step i _ => ∀ t ∈ w.calls[i]?, ∀ x ∈ t.lands,
      w.shared.addedBy x.1 x.2.1 x.2.2.1 ≤
        x.2.2.2 + (w.shared.replicas x.1).pending x.2.1 x.2.2.1 +
          (w.total (Task.adding x.1 x.2.1 x.2.2.1) - t.adding x.1 x.2.1 x.2.2.1)

instance (w : Pool (Shared n) (Task n)) (a : Act (Call n) Choice) : Decidable (Covered w a) :=
  match a with
  | .start _ => inferInstanceAs (Decidable True)
  | .step i _ => inferInstanceAs (Decidable (∀ t ∈ w.calls[i]?, ∀ x ∈ t.lands,
      w.shared.addedBy x.1 x.2.1 x.2.2.1 ≤
        x.2.2.2 + (w.shared.replicas x.1).pending x.2.1 x.2.2.1 +
          (w.total (Task.adding x.1 x.2.1 x.2.2.1) - t.adding x.1 x.2.1 x.2.2.1)))

/-- What a replica added is cached, or its call is in flight. -/
def OwnCovered (m : String) (w : Pool (Shared n) (Task n)) : Prop :=
  ∀ r T, w.shared.addedBy r T m ≤ (w.shared.replicas r).cached T m + w.total (Task.adding r T m)

theorem OfMonth.keepsTotal (h : OfMonth m w) {i : Nat}
    (ht : w.calls[i]? = some t) : w.shared.KeepsTotal m t :=
  fun _ hx hne => absurd (h.2 i t ht _ (Task.month_of_touches hx)).symm hne

theorem OwnCovered.act {env : Env}
    {a : Act (Call n) Choice} (h : OwnCovered m w) (hmonth : OfMonth m w) (hcovered : Covered w a) :
    OwnCovered m ((quota env n).act w a) := by
  intro r T
  have hbefore := h r T
  refine System.act_total (f := Task.adding r T m) (P := fun (s : Shared n) total =>
    s.addedBy r T m ≤ (s.replicas r).cached T m + total) hbefore (fun call => (Task.opening_start call).adding r T m) ?_
  rintro i c t sum rfl hi htotal
  dsimp only [quota] at htotal ⊢
  have hkeeps := hmonth.keepsTotal hi
  cases hlands : t.lands with
  | none =>
    have hstep := t.next_cached env c hkeeps hlands r T
    linarith
  | some x =>
    obtain ⟨r', tenantID, month, total⟩ := x
    obtain ⟨htouches, husd, hadding⟩ := Task.next_lands hlands
    obtain ⟨hzero, hother⟩ := hadding env c w.shared r T m
    have hcover := hcovered t hi _ hlands
    rw [hzero] at htotal
    rw [t.next_of_touches htouches, cached_section hkeeps htouches (by simp), husd]
    show w.shared.addedBy r T m ≤ _
    by_cases hkey : r = r' ∧ T = tenantID ∧ m = month
    · obtain ⟨rfl, rfl, rfl⟩ := hkey
      simp only [and_self, if_true]
      simp only [Enforcer.pending] at hcover
      linarith
    · have hnone := hother fun heq => hkey (by simpa using heq)
      simp only [hkey, if_false]
      linarith

def Task.on : Task n → Option (Fin n × String)
  | .add r tenantID _ | .claim r tenantID .. | .write r tenantID .. | .settle r tenantID ..
  | .bump r tenantID .. | .check r tenantID | .usage r tenantID | .current r tenantID _
  | .look r tenantID .. | .fetch r tenantID .. | .refresh r tenantID .. => some (r, tenantID)
  | .returned _ => none

theorem Task.adding_eq_zero {r : Fin n} {T : String} (h : t.on ≠ some (r, T))
    (M : String) : t.adding r T M = 0 := by
  cases t with
  | claim | write | settle | bump =>
    exact if_neg fun hand => h (by rw [Task.on, hand.1, hand.2.1])
  | add | look | check | usage | current | fetch | refresh | returned => rfl

def capped : Fin n → Config × (String → Option Config) := fun _ => (⟨10⟩, fun _ => none)

/-- A check reads the ledger after a failed write; the next `AddSpend` writes both amounts. -/
def checkBetween : List (Act (Call 1) Choice) :=
  [.start (.addSpend 0 "acme" 3), .step 0 ⟨0, false⟩, .step 0 ⟨0, false⟩, .step 0 ⟨0, true⟩,
    .step 0 ⟨0, false⟩, .start (.checkSpend 0 "acme"), .step 1 ⟨1, false⟩, .step 1 ⟨1, false⟩,
    .step 1 ⟨1, false⟩, .step 1 ⟨1, false⟩, .step 1 ⟨1, false⟩, .start (.addSpend 0 "acme" 4),
    .step 2 ⟨2, false⟩, .step 2 ⟨2, false⟩, .step 2 ⟨2, false⟩, .step 2 ⟨2, false⟩]

/-- A check reads the ledger, an `AddSpend` writes and returns, and then the check puts the
total it read into the cache. -/
def staleRefresh : List (Act (Call 1) Choice) :=
  [.start (.checkSpend 0 "acme"), .step 0 ⟨0, false⟩, .step 0 ⟨0, false⟩, .step 0 ⟨0, false⟩,
    .step 0 ⟨0, false⟩, .start (.addSpend 0 "acme" 3), .step 1 ⟨0, false⟩, .step 1 ⟨0, false⟩,
    .step 1 ⟨0, false⟩, .step 1 ⟨0, false⟩, .step 0 ⟨1, false⟩]

end MockAgents.Quota
