import MockAgents.Registry.Proofs.Index
/-!
# The agent of a model

The untenanted index of models has the agent that was registered last for a model, and nothing
once that agent is removed or replaced, whatever other agents declare the model.
-/

namespace MockAgents.Registry

open Lib Lib.Maps List Option AList AgentRegistry

def Op.agent : Op → Option AgentDefinition
  | .register agent | .registerWithSource agent _ => agent
  | .remove _ | .removeForTenant .. => none

/-- The agent registered last for a model. -/
def lastOf (model : String) (ops : List Op) : Option AgentDefinition :=
  (ops.reverse.filterMap Op.agent).find? fun agent => agent.model = model

variable {m : String} {a : AgentDefinition} {ops : List Op} {op : Op}
variable {b : AList fun _ : String => AgentDefinition} {R : Registered} {r : AgentRegistry}

theorem lastOf_concat : lastOf m (ops ++ [op]) =
    (op.agent.filter fun agent => agent.model = m).or (lastOf m ops) := by
  rw [lastOf, reverse_append, reverse_singleton, singleton_append, filterMap_cons]
  cases op.agent with
  | none => rfl
  | some agent => by_cases h : agent.model = m <;> simp [lastOf, Option.filter, h]

namespace AgentRegistry

/-! ## What leaves the index -/

theorem lookup_unclaimModel (agent : AgentDefinition)
    (hb : b.lookup m = some a → a.model = m ∧ m ≠ "") :
    (unclaimModel b agent).lookup m = some a ↔ b.lookup m = some a ∧ a ≠ agent := by
  unfold unclaimModel
  split
  next hown =>
    simp only [Bool.and_eq_true, decide_eq_true_eq] at hown
    by_cases heq : m = agent.model
    · subst heq
      rw [lookup_erase]
      grind
    · rw [lookup_erase_ne heq]
      grind
  next hother =>
    grind

theorem lookup_sweep (name : String)
    (l : List (Σ _ : String, AList fun _ : String => AgentDefinition)) (st : Sweep)
    (hb : st.registry.byModel.lookup m = some a → a.model = m ∧ m ≠ "") :
    (l.foldl (sweepOwner name) st).registry.byModel.lookup m = some a ↔
      st.registry.byModel.lookup m = some a ∧ ∀ e ∈ l, e.2.lookup name ≠ some a := by
  induction l generalizing st with
  | nil => simp
  | cons e l ih =>
    rw [foldl_cons, sweepOwner, forall_mem_cons]
    cases hfound : e.2.lookup name with
    | none => simpa using ih st hb
    | some agent =>
      have hone := lookup_unclaimModel agent hb
      refine (ih _ fun h => hb (hone.mp h).1).trans ((and_congr_left' hone).trans ?_)
      grind

theorem rebuildModelBucket_byModel (sh : Shuffle) (r : AgentRegistry) (model : String) :
    (r.rebuildModelBucket sh model).byModel = r.byModel := by
  unfold rebuildModelBucket
  split
  · rfl
  · dsimp only
    split <;> rfl

theorem rebuildAll_byModel (sh : Loops) (models : List String) (r : AgentRegistry) :
    (models.foldl (fun r model => r.rebuildModelBucket (sh model) model) r).byModel = r.byModel := by
  induction models generalizing r with
  | nil => rfl
  | cons model models ih => exact (ih _).trans (rebuildModelBucket_byModel ..)

/-! ## Runs -/

/-- The index has the agents registered last, as far as they are still registered. -/
def Latest (ops : List Op) (R : Registered) (b : AList fun _ : String => AgentDefinition) : Prop :=
  ∀ m a, b.lookup m = some a ↔ m ≠ "" ∧ lastOf m ops = some a ∧ R a.tenantID a.name = some a

theorem Latest.declares (h : Latest ops R b) (hm : b.lookup m = some a) : a.model = m ∧ m ≠ "" := by
  obtain ⟨hne, hlast, -⟩ := (h m a).mp hm
  exact ⟨by simpa using find?_some hlast, hne⟩

theorem Latest.step (h : Latest ops R r.byModel) (hr : Current r R)
    (printable : Char → Bool) (sh : Loops) :
    Latest (ops ++ [op]) (R.step op) (r.step printable (op, sh)).byModel := by
  intro m a
  have hlatest := h m a
  have hone := fun agent => lookup_unclaimModel agent (h.declares (m := m) (a := a))
  rw [lastOf_concat]
  cases op with
  | register agent | registerWithSource agent path =>
    cases agent with
    | none => simpa [step, register, registerWithSource, Op.agent, Registered.step]
        using hlatest
    | some agent =>
      have hlast : lastOf m ops = some a → a.model = m := fun hl => by simpa using find?_some hl
      have hkeyed := hr.keyed agent.tenantID agent.name
      have hinsert : ∀ b : AList fun _ : String => AgentDefinition,
          (b.insert agent.model agent).lookup m = if m = agent.model then some agent else b.lookup m := by
        intro b
        split
        next heq => rw [heq, lookup_insert]
        next hne => exact lookup_insert_ne hne
      simp only [step, register, registerWithSource, registerLocked, hr.agents, apply_ite byModel,
        rebuildModelBucket_byModel, ite_self, Op.agent, Registered.step, Registered.set]
      cases hreg : R agent.tenantID agent.name with
      | none => grind
      | some prev => grind
  | removeForTenant name tenantID =>
    have hkeyed := hr.keyed tenantID name
    simp only [step, removeForTenant, hr.agents, Op.agent, Registered.step, Registered.erase]
    cases hreg : R tenantID name with
    | none =>
      simp only [Except.toOption, map_none, getD_none]
      grind
    | some agent =>
      simp only [Except.toOption, map_some, getD_some, rebuildModelBucket_byModel, removeAgent]
      grind
  | remove name =>
    have hswept := lookup_sweep name ((sh "").list r.agents.entries) ⟨r, [], []⟩
      (h.declares (m := m) (a := a))
    have hmem : (∀ e ∈ (sh "").list r.agents.entries, e.2.lookup name ≠ some a) ↔
        ∀ owner, R owner name ≠ some a := by
      simp only [← hr.agents, Table.get, ne_eq, bind_eq_some_iff, Shuffle.mem_list,
        Sigma.forall, ← mem_lookup_iff, mem_def, not_exists, not_and]
    have hkeyed := fun owner => hr.keyed owner name a
    simp only [step, remove, Op.agent, Registered.step]
    split
    next hnone =>
      rw [sweep_removed name _ _ hnone] at hswept
      simp only [Except.toOption, map_none, getD_none]
      grind
    next hne =>
      simp only [Except.toOption, map_some, getD_some, rebuildAll_byModel]
      rw [hswept]
      grind

theorem latest_run (printable : Char → Bool) (ops : List (Op × Loops)) :
    Latest (ops.map Prod.fst) (Registered.empty.run (ops.map Prod.fst))
      (newAgentRegistry.run printable ops).byModel := by
  induction ops using reverseRecOn with
  | nil => exact fun m a => ⟨fun h => (by cases h), fun h => (by cases h.2.2)⟩
  | append_singleton ops op ih =>
    rw [map_append, Registered.run, run, foldl_append, foldl_append]
    exact ih.step (reached_indexed printable ops) printable op.2

def Declares (r : AgentRegistry) (model : String) : Prop :=
  ∃ owner agent, r.registered.Candidate model owner agent

end AgentRegistry

/-- **What `GetByModel` returns is registered and declares the model.**  That it returns an agent
whenever one declares the model holds exactly when the one registered last for the model is still
registered, or none is. -/
theorem getByModel_complete_iff (printable : Char → Bool) (ops : List (Op × Loops)) (model : String) :
    let r := newAgentRegistry.run printable ops
    (∀ a, r.getByModel model = some a → r.registered.Candidate model a.tenantID a) ∧
      (((∃ a, r.getByModel model = some a) ↔ r.Declares model) ↔ (r.Declares model → model ≠ "" ∧
        ∃ a, lastOf model (ops.map Prod.fst) = some a ∧ r.registered a.tenantID a.name = some a)) := by
  intro r
  have hlatest := latest_run printable ops
  have hreg : r.registered = Registered.empty.run (ops.map Prod.fst) :=
    funext₂ (reached_indexed printable ops).agents
  rw [← hreg] at hlatest
  have hsound : ∀ a, r.getByModel model = some a → r.registered.Candidate model a.tenantID a :=
    fun a ha => ⟨(hlatest.declares ha).1, a.name, ((hlatest model a).mp ha).2.2⟩
  have hiff : (∃ a, r.getByModel model = some a) ↔ model ≠ "" ∧
      ∃ a, lastOf model (ops.map Prod.fst) = some a ∧ r.registered a.tenantID a.name = some a := by
    rw [← exists_and_left]
    exact exists_congr fun a => hlatest model a
  refine ⟨hsound, ?_⟩
  rw [← hiff]
  exact ⟨fun h => h.mpr, fun h => ⟨fun ⟨a, ha⟩ => ⟨_, a, hsound a ha⟩, h⟩⟩

/-- Of two agents of one model the one registered last is removed. -/
def removedLast : List (Op × Loops) :=
  [Op.register (some ⟨0, "", "billing", "gpt-4o"⟩), .register (some ⟨1, "", "support", "gpt-4o"⟩),
    .remove "support"].map fun op => (op, fun _ => .stored)

theorem getByModel_forgets :
    let r := newAgentRegistry.run (fun _ => true) removedLast
    r.registered "" "billing" = some ⟨0, "", "billing", "gpt-4o"⟩ ∧ r.getByModel "gpt-4o" = none := by
  decide +kernel

end MockAgents.Registry
