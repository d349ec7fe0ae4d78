import MockAgents.Quota.Proofs.CapCheck
/-!
# Across a month boundary

A tenant has one counter, which a step of another month replaces.  A step that read the clock
before the boundary may come after steps of the new month, so the counter can be replaced in
either direction.
-/

namespace MockAgents.Quota

open Lib Enforcer

variable {n : Nat}
variable {new : String} {w : Pool (Shared n) (Task n)} {a : Act (Call n) Choice} {t : Task n}
variable {env : Env}

/-- A counter that a step replaces has nothing unsynced; without a backend, one of the new
month has nothing at all. -/
def Replaces (new : String) (w : Pool (Shared n) (Task n)) : Act (Call n) Choice → Prop
  | .start _ => True
  | .step i _ => ∀ t ∈ w.calls[i]?, ∀ x ∈ t.touches, ∀ c ∈ (w.shared.replicas x.1).spendCache x.2.1,
      c.month = x.2.2 ∨ if (w.shared.replicas x.1).spendBackend then c.unsynced = 0
        else c.month = new → c.usd = 0

instance (new : String) (w : Pool (Shared n) (Task n)) (a : Act (Call n) Choice) :
    Decidable (Replaces new w a) :=
  match a with
  | .start _ => inferInstanceAs (Decidable True)
  | .step i _ => inferInstanceAs (Decidable (∀ t ∈ w.calls[i]?, ∀ x ∈ t.touches,
      ∀ c ∈ (w.shared.replicas x.1).spendCache x.2.1,
        c.month = x.2.2 ∨ if (w.shared.replicas x.1).spendBackend then c.unsynced = 0
          else c.month = new → c.usd = 0))

/-! ## With a backend -/

theorem Replaces.rollsClean
    (h : Replaces new w a) (hbacked : w.shared.Backed true) : RollsClean w a := by
  cases a with
  | start call => trivial
  | step i c =>
    intro t ht x hx k hk
    have hreplaced := h t ht x hx k hk
    rwa [hbacked] at hreplaced

/-! ## Without a backend -/

theorem Replaces.keepsTotal {i : Nat} {c : Choice}
    (h : Replaces new w (.step i c)) (hlocal : w.shared.Backed false)
    (ht : w.calls[i]? = some t) : w.shared.KeepsTotal new t := by
  intro x hx hne
  unfold cached counterForMonth
  split
  · rfl
  next k hk =>
    split
    next hmonth =>
      have hreplaced := h t ht x hx k hk
      rw [hlocal] at hreplaced
      rcases hreplaced with hsame | hnew
      · exact absurd (hmonth.symm.trans hsame) hne
      · exact hnew hmonth
    next => rfl

/-- Without a backend no call asks one. -/
def Task.Local : Task n → Prop
  | .claim .. | .write .. | .settle .. | .fetch .. | .refresh .. => False
  | _ => True

theorem Task.Local.lands (h : t.Local) : t.lands = none := by
  cases t with
  | settle | refresh => exact absurd h id
  | claim | write | fetch | add | bump | look | check | usage | current | returned => rfl

theorem Task.Opening.isLocal (h : t.Opening) : t.Local := by
  cases h <;> trivial

theorem Task.Local.next (h : t.Local) (env : Env) (c : Choice) {s : Shared n}
    (hlocal : s.Backed false) : (t.next env c s).2.Local := by
  cases t with
  | claim | write | settle | fetch | refresh => exact absurd h id
  | add r tenantID usd =>
    simp only [Task.next, hlocal r]
    trivial
  | check r tenantID =>
    simp only [Task.next]
    split <;> trivial
  | look r tenantID month purpose =>
    simp only [Task.next, Enforcer.look, hlocal r]
    trivial
  | bump | usage | current | returned => trivial

def InMemory : Pool (Shared n) (Task n) → Prop :=
  System.Holds (fun s => s.Backed false) (fun _ _ t => t.Local)

theorem InMemory.act (h : InMemory w)
    (a : Act (Call n) Choice) : InMemory ((quota env n).act w a) := by
  refine System.Holds.act h ?_ ?_ ?_
  · exact fun call _ => (Task.opening_start call).isLocal
  · rintro i c t rfl ht
    exact ⟨h.1.next env c t, (h.2 i t ht).next env c h.1⟩
  · exact fun i c t j u _ _ hu _ => h.2 j u hu

/-- A replica's counter of a month and the amounts in flight make up what it added. -/
def Tallied (M : String) (w : Pool (Shared n) (Task n)) : Prop :=
  ∀ r T, (w.shared.replicas r).cached T M + w.total (Task.adding r T M) = w.shared.addedBy r T M

theorem Tallied.act (h : Tallied new w) (hmemory : InMemory w)
    (hreplaces : Replaces new w a) : Tallied new ((quota env n).act w a) := by
  intro r T
  have hbefore := h r T
  refine System.act_total (f := Task.adding r T new) (P := fun (s : Shared n) total =>
    (s.replicas r).cached T new + total = s.addedBy r T new) hbefore (fun call => (Task.opening_start call).adding r T new) ?_
  rintro i c t total rfl hi htotal
  have hstep := t.next_cached env c (hreplaces.keepsTotal hmemory.1 hi) (hmemory.2 i t hi).lands r T
  dsimp only [quota] at htotal ⊢
  linarith

/-! ## Both -/

/-- **Every amount stays attributable to the month it was added in**, while no step replaces a
counter that still has it: with a backend it is in the ledger, unsynced or carried under that
month; without one the new month's counter has what was added in the new month. -/
theorem spend_attributable (env : Env) (config : Fin n → Config × (String → Option Config))
    (backend : Bool) (new : String) (acts : List (Act (Call n) Choice))
    (hreplaces : (quota env n).Steps (Replaces new) (opened config backend) acts) :
    let w := (quota env n).run (opened config backend) acts
    (backend = true → ∀ T M, w.shared.ledger T M + w.shared.pending T M +
        w.total (Task.carries T M) = w.shared.addedTo T M) ∧
      (backend = false → ∀ r T, (w.shared.replicas r).cached T new +
        w.total (Task.adding r T new) = w.shared.addedBy r T new) := by
  refine ⟨?_, ?_⟩
  · rintro rfl
    exact (System.Steps.run_induction (P := Accounted)
      (fun w a h ha => h.act env (ha.rollsClean h.backed)) hreplaces
      (accounted_opened config)).balance
  · rintro rfl
    exact (System.Steps.run_induction (P := fun w => InMemory w ∧ Tallied new w)
      (fun w a h ha => ⟨h.1.act a, h.2.act h.1 ha⟩) hreplaces
      ⟨⟨fun _ => rfl, fun _ _ ht => (by cases ht)⟩, fun r T => by
        simp [opened, cached, counterForMonth, newCounter, Pool.total, Shared.addedBy]⟩).2

def boundary : Env := ⟨fun now => if now < 10 then "2026-01" else "2026-02"⟩

def replica : Fin 1 := ⟨0, Nat.one_pos⟩

/-- A write of January fails, the next one of January takes it along, and February follows. -/
def syncedBefore : List (Act (Call 1) Choice) :=
  [.start (.addSpend replica "acme" 3), .step 0 ⟨0, false⟩, .step 0 ⟨0, false⟩, .step 0 ⟨0, true⟩,
    .step 0 ⟨0, false⟩, .start (.addSpend replica "acme" 4), .step 1 ⟨9, false⟩, .step 1 ⟨9, false⟩,
    .start (.addSpend replica "acme" 5), .step 2 ⟨10, false⟩, .step 2 ⟨10, false⟩, .step 1 ⟨11, false⟩,
    .step 2 ⟨11, false⟩]

theorem spend_attributable_syncedBefore :
    let w := (quota boundary 1).run (opened capped true) syncedBefore
    w.shared.ledger "acme" "2026-01" = 7 ∧
      w.shared.ledger "acme" "2026-01" + w.shared.pending "acme" "2026-01" +
        w.total (Task.carries "acme" "2026-01") = w.shared.addedTo "acme" "2026-01" :=
  ⟨by decide +kernel, (spend_attributable boundary capped true "2026-02" syncedBefore
    (by decide +kernel)).1 rfl "acme" "2026-01"⟩

/-- A write of January fails, and the first check of February replaces the counter. -/
def unsyncedBefore : List (Act (Call 1) Choice) :=
  [.start (.addSpend replica "acme" 3), .step 0 ⟨0, false⟩, .step 0 ⟨0, false⟩, .step 0 ⟨0, true⟩,
    .step 0 ⟨0, false⟩, .start (.checkSpend replica "acme"), .step 1 ⟨10, false⟩, .step 1 ⟨10, false⟩,
    .step 1 ⟨10, false⟩]

/-- An `AddSpend` that read the clock in January comes after one of February, without a
backend. -/
def lateBump : List (Act (Call 1) Choice) :=
  [.start (.addSpend replica "acme" 3), .step 0 ⟨9, false⟩, .start (.addSpend replica "acme" 5),
    .step 1 ⟨10, false⟩, .step 1 ⟨10, false⟩, .step 0 ⟨11, false⟩]

/-- The unsynced spend of January is nowhere, and February's counter is gone. -/
theorem spend_lost :
    let w := (quota boundary 1).run (opened capped true) unsyncedBefore
    let v := (quota boundary 1).run (opened capped false) lateBump
    (w.shared.addedTo "acme" "2026-01" = 3 ∧ w.shared.ledger "acme" "2026-01" = 0 ∧
      w.shared.pending "acme" "2026-01" = 0 ∧ w.total (Task.carries "acme" "2026-01") = 0) ∧
    v.shared.addedBy 0 "acme" "2026-02" = 5 ∧ (v.shared.replicas 0).cached "acme" "2026-02" = 0 ∧
      v.total (Task.adding 0 "acme" "2026-02") = 0 := by
  refine ⟨⟨?_, ?_, ?_, ?_⟩, ?_, ?_, ?_⟩ <;> decide +kernel

end MockAgents.Quota
