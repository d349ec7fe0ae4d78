import MockAgents.Registry.Agents
/-!
# The model index

What is registered after a sequence of writes, as a function of owner and name, and the
invariant that ties the maps of the registry to it: the tenant index holds for every
model and owner the agent of least name, and every backing file belongs to an agent.
-/

namespace MockAgents.Registry

open Lib Lib.Maps List Option AList AgentDefinition Table AgentRegistry Sigma

/-! ## What is registered -/

/-- The agent registered for an owner under a name. -/
abbrev Registered := String → String → Option AgentDefinition

namespace Registered

def empty : Registered := fun _ _ => none

def set (R : Registered) (agent : AgentDefinition) : Registered := fun owner name =>
  if owner = agent.tenantID ∧ name = agent.name then some agent else R owner name

def erase (R : Registered) (tenantID name : String) : Registered := fun owner n =>
  if owner = tenantID ∧ n = name then none else R owner n

def step (R : Registered) : Op → Registered
  | .register agent | .registerWithSource agent _ =>
    match agent with
    | none => R
    | some agent => R.set agent
  | .remove name => fun owner n => if n = name then none else R owner n
  | .removeForTenant name tenantID => R.erase tenantID name

theorem step_remove (R : Registered) (name owner n : String) :
    R.step (.remove name) owner n = if n = name then none else R owner n := rfl

def run (R : Registered) (ops : List Op) : Registered := ops.foldl step R

def Candidate (R : Registered) (model owner : String) (agent : AgentDefinition) : Prop :=
  agent.model = model ∧ ∃ name, R owner name = some agent

def Keyed (R : Registered) : Prop :=
  ∀ owner name agent, R owner name = some agent → agent.tenantID = owner ∧ agent.name = name

/-- The lookup by model as a scan: the agent of least name the tenant owns, or else the
global one of least name. -/
def Scans (R : Registered) (model tenantID : String) (found : Option AgentDefinition) : Prop :=
  (∃ agent, found = some agent ∧ Picks AgentDefinition.name (R.Candidate model tenantID) found) ∨
    ((∀ agent, ¬ R.Candidate model tenantID agent) ∧
      Picks AgentDefinition.name (R.Candidate model "") found)

variable {R : Registered} {model tenantID : String}
variable {name : String}

theorem Keyed.candidate_inj (h : R.Keyed) {owner : String} (a b : AgentDefinition)
    (ha : R.Candidate model owner a) (hb : R.Candidate model owner b) (hname : a.name = b.name) :
    a = b := by
  obtain ⟨_, n, hn⟩ := ha
  obtain ⟨_, m, hm⟩ := hb
  rw [← (h owner n a hn).2] at hn
  rw [← (h owner m b hm).2, ← hname, hn, some.injEq] at hm
  exact hm

/-- The scan finds one agent at most. -/
theorem Keyed.scans_unique (h : R.Keyed) {found found' : Option AgentDefinition}
    (hf : R.Scans model tenantID found) (hf' : R.Scans model tenantID found') : found = found' := by
  rcases hf with ⟨a, rfl, ha⟩ | ⟨hnone, hg⟩
  · rcases hf' with ⟨b, _, hb⟩ | ⟨hnone, _⟩
    · exact ha.unique h.candidate_inj hb
    · exact absurd ha.1 (hnone a)
  · rcases hf' with ⟨b, rfl, hb⟩ | ⟨_, hg'⟩
    · exact absurd hb.1 (hnone b)
    · exact hg.unique h.candidate_inj hg'

section Write
variable {o : String} {new : Option AgentDefinition}

/-- What is registered after a write to one owner and name, as `set` and `erase` make it. -/
theorem Keyed.write (h : R.Keyed)
    (hnew : ∀ agent, new = some agent → agent.tenantID = o ∧ agent.name = name) :
    Keyed fun owner n => if owner = o ∧ n = name then new else R owner n := by
  intro owner n found hfound
  simp only at hfound
  split at hfound
  next heq =>
    rw [heq.1, heq.2]
    exact hnew found hfound
  · exact h owner n found hfound

/-- A write to one agent leaves the candidates of a model no version of it declares. -/
theorem candidate_write (hold : ∀ prev, R o name = some prev → prev.model ≠ model)
    (hnew : ∀ agent, new = some agent → agent.model ≠ model) (owner : String) (found : AgentDefinition) :
    R.Candidate model owner found ↔
      Candidate (fun owner n => if owner = o ∧ n = name then new else R owner n) model owner found := by
  refine and_congr_right fun hm => exists_congr fun n => ?_
  dsimp only
  split
  next heq =>
    rw [heq.1, heq.2]
    exact iff_of_false (fun hn => hold found hn hm) fun hn => hnew found hn hm
  next => rfl

end Write

theorem erase_eq_self (h : R tenantID name = none) : R.erase tenantID name = R := by
  funext owner n
  unfold erase
  split
  next heq =>
    rw [heq.1, heq.2, h]
  · rfl

theorem foldl_erase (R : Registered) (name : String) (owners : List String) (owner n : String) :
    owners.foldl (fun R o => R.erase o name) R owner n =
      if owner ∈ owners ∧ n = name then none else R owner n := by
  induction owners generalizing R with
  | nil => simp
  | cons o owners ih =>
    rw [foldl_cons, ih, erase]
    by_cases hn : n = name <;> by_cases ho : owner = o <;> by_cases hm : owner ∈ owners <;>
      simp [hn, ho, hm]

end Registered

/-! ## Rebuilding a bucket -/

namespace AgentRegistry

def registered (r : AgentRegistry) : Registered := fun owner name => r.agents.get owner name

theorem claimModel_eq (model owner : String) (owners : AList fun _ : String => AgentDefinition)
    (agent : AgentDefinition) :
    claimModel model owner owners agent =
      if decide (agent.model = model) = true then keepLeast name owners owner agent
      else owners := by
  unfold claimModel keepLeast
  by_cases h : agent.model = model
  · rw [if_neg (not_not.mpr h), if_pos (decide_eq_true h)]
    cases owners.lookup owner with
    | none => rfl
    | some cur => by_cases hlt : agent.name < cur.name <;> simp only [hlt, if_true, if_false]
  · simp [h]

theorem picks_rebuild (sh : Shuffle) (r : AgentRegistry) (model owner : String) :
    Picks name (r.registered.Candidate model owner)
      (((sh.list r.agents.entries).foldl
        (fun owners bucket => (sh.list bucket.2.entries).foldl
          (fun owners agent => claimModel model bucket.1 owners agent.2) owners) ∅).lookup owner) := by
  have hflat : ∀ owners, (sh.list r.agents.entries).foldl
      (fun owners bucket => (sh.list bucket.2.entries).foldl
        (fun owners agent => claimModel model bucket.1 owners agent.2) owners) owners =
      (r.agents.flat sh).foldl (fun owners e =>
        if decide (e.2.model = model) = true then keepLeast name owners e.1 e.2
        else owners) owners := by
    intro owners
    simp only [flat, foldl_flatMap, foldl_map, claimModel_eq]
  rw [hflat]
  have hnone : Picks name (fun _ => False)
      ((∅ : AList fun _ : String => AgentDefinition).lookup owner) := by simp [Picks]
  refine (picks_foldl name (fun agent => decide (agent.model = model)) (r.agents.flat sh)
    owner hnone).congr fun agent => ?_
  rw [mem_flat, decide_eq_true_eq, false_or, and_comm]
  rfl

theorem rebuildModelBucket_frame (sh : Shuffle) (r : AgentRegistry) (model : String) :
    (r.rebuildModelBucket sh model).agents = r.agents ∧
      (r.rebuildModelBucket sh model).sources = r.sources ∧
      ∀ m, m ≠ model → (r.rebuildModelBucket sh model).byModelTenant.lookup m = r.byModelTenant.lookup m := by
  unfold rebuildModelBucket
  split
  · exact ⟨rfl, rfl, fun _ _ => rfl⟩
  · dsimp only
    split
    · exact ⟨rfl, rfl, fun m hm => lookup_erase_ne hm⟩
    · exact ⟨rfl, rfl, fun m hm => lookup_insert_ne hm⟩
variable {model : String}

theorem rebuildModelBucket_get (sh : Shuffle) (r : AgentRegistry) (hm : model ≠ "")
    (owner : String) :
    Picks name (r.registered.Candidate model owner)
      ((r.rebuildModelBucket sh model).byModelTenant.get model owner) := by
  have hpick := picks_rebuild sh r model owner
  unfold rebuildModelBucket
  rw [if_neg hm]
  dsimp only
  split
  next hempty =>
    rw [lookup_eq_none_of_keys hempty] at hpick
    rwa [Table.get, lookup_erase]
  · rwa [Table.get, lookup_insert]

variable {r : AgentRegistry} {R : Registered} {stale : String → Prop} {name : String}
variable {owner : String}

theorem rebuildModelBucket_trim (sh : Shuffle) (h : r.byModelTenant.Trim) (model : String) :
    (r.rebuildModelBucket sh model).byModelTenant.Trim := by
  intro m owners hl
  by_cases hm : m = model
  · subst hm
    unfold rebuildModelBucket at hl
    split at hl
    · exact h m owners hl
    · dsimp only at hl
      split at hl
      · simp at hl
      next hne =>
        rw [lookup_insert, some.injEq] at hl
        exact hl ▸ hne
  · exact h m owners ((rebuildModelBucket_frame sh r model).2.2 m hm ▸ hl)

/-! ## The invariant -/

/-- The registry holds `R`, and its tenant index is right but for the stale models. -/
structure Indexed (stale : String → Prop) (r : AgentRegistry) (R : Registered) : Prop where
  agents : ∀ owner name, r.agents.get owner name = R owner name
  keyed : R.Keyed
  index : ∀ model, model ≠ "" → ¬ stale model → ∀ owner,
    Picks AgentDefinition.name (R.Candidate model owner) (r.byModelTenant.get model owner)
  noModel : r.byModelTenant.lookup "" = none
  sourced : ∀ owner name, (r.sources.get owner name).isSome = true → (R owner name).isSome = true
  trimAgents : r.agents.Trim
  trimIndex : r.byModelTenant.Trim
  trimSources : r.sources.Trim

/-- No model is stale. -/
abbrev Current (r : AgentRegistry) (R : Registered) : Prop := Indexed (fun _ => False) r R

theorem indexed_new : Current newAgentRegistry Registered.empty where
  agents _ _ := rfl
  keyed _ _ _ h := absurd h (by simp [Registered.empty])
  index model _ _ owner := by
    rintro a ⟨_, n, hn⟩
    exact absurd hn (by simp [Registered.empty])
  noModel := rfl
  sourced _ _ h := absurd h (by simp [newAgentRegistry])
  trimAgents := trim_empty
  trimIndex := trim_empty
  trimSources := trim_empty

theorem Indexed.rebuild (h : Indexed stale r R) (sh : Shuffle) (model : String) :
    Indexed (fun m => stale m ∧ m ≠ model) (r.rebuildModelBucket sh model) R := by
  obtain ⟨hagents, hsources, hother⟩ := rebuildModelBucket_frame sh r model
  have hreg : r.registered = R := funext fun owner => funext fun name => h.agents owner name
  refine ⟨?_, h.keyed, ?_, ?_, ?_, ?_, rebuildModelBucket_trim sh h.trimIndex model, ?_⟩
  · rw [hagents]
    exact h.agents
  · intro m hm hfresh owner
    by_cases heq : m = model
    · subst heq
      exact hreg ▸ rebuildModelBucket_get sh r hm owner
    · rw [get_of_lookup (hother m heq)]
      exact h.index m hm (fun hs => hfresh ⟨hs, heq⟩) owner
  · by_cases heq : "" = model
    · subst heq
      rw [rebuildModelBucket]
      exact h.noModel
    · rw [hother "" heq]
      exact h.noModel
  · rw [hsources]
    exact h.sourced
  · rw [hagents]
    exact h.trimAgents
  · rw [hsources]
    exact h.trimSources

theorem Indexed.mono {stale' : String → Prop} (h : Indexed stale r R)
    (hs : ∀ m, m ≠ "" → stale m → stale' m) : Indexed stale' r R :=
  ⟨h.agents, h.keyed, fun m hm hfresh => h.index m hm (fun hst => hfresh (hs m hm hst)), h.noModel,
    h.sourced, h.trimAgents, h.trimIndex, h.trimSources⟩

theorem Indexed.rebuildAll (h : Indexed stale r R) (sh : Loops) (models : List String) :
    Indexed (fun m => stale m ∧ m ∉ models)
      (models.foldl (fun r model => r.rebuildModelBucket (sh model) model) r) R := by
  induction models generalizing stale r with
  | nil => exact h.mono fun m _ hm => ⟨hm, by simp⟩
  | cons model models ih =>
    refine (ih (h.rebuild (sh model) model)).mono fun m _ hm => ?_
    exact ⟨hm.1.1, by simp [hm.1.2, hm.2]⟩

/-! ## Registering -/

/-- The maps of a registration before its rebuilds. -/
theorem Indexed.enter (h : Current r R) (agent : AgentDefinition)
    (byModel : AList fun _ : String => AgentDefinition) :
    Indexed (fun m => m = agent.model ∨ ∃ prev, R agent.tenantID agent.name = some prev ∧ m = prev.model)
      { r with agents := r.agents.put agent.tenantID agent.name agent, byModel := byModel }
      (R.set agent) := by
  refine ⟨?_, h.keyed.write ?_, ?_, h.noModel, ?_, h.trimAgents.put _ _ _, h.trimIndex, h.trimSources⟩
  · intro owner name
    rw [get_put, Registered.set, h.agents]
  · rintro _ ⟨⟩
    exact ⟨rfl, rfl⟩
  · intro m hm hfresh owner
    rw [not_or] at hfresh
    refine (h.index m hm (fun hf => hf) owner).congr (Registered.candidate_write ?_ ?_ owner)
    · exact fun prev hprev heq => hfresh.2 ⟨prev, hprev, heq.symm⟩
    · rintro _ ⟨⟩ heq
      exact hfresh.1 heq.symm
  · intro owner name hsrc
    rw [Registered.set]
    split
    · rfl
    · exact h.sourced owner name hsrc

theorem Indexed.source (h : Current r R) (hreg : (R owner name).isSome = true) (path : String) :
    Current { r with sources := r.sources.put owner name path } R := by
  refine ⟨h.agents, h.keyed, h.index, h.noModel, ?_, h.trimAgents, h.trimIndex, h.trimSources.put _ _ _⟩
  intro o n hsrc
  rw [get_put] at hsrc
  split at hsrc
  next heq =>
    rw [heq.1, heq.2]
    exact hreg
  · exact h.sourced o n hsrc

theorem registerLocked_indexed (h : Current r R) (sh : Loops)
    (agent : AgentDefinition) (path : String) :
    Current (r.registerLocked sh agent path).1 (R.set agent) := by
  unfold registerLocked
  dsimp only
  rw [h.agents]
  set oldModel := ((R agent.tenantID agent.name).map (·.model)).getD "" with hold
  -- what is stale after the first rebuild is the model the agent left
  have hstale : ∀ m, m ≠ "" → ((m = agent.model ∨ ∃ prev, R agent.tenantID agent.name = some prev ∧
      m = prev.model) ∧ m ≠ agent.model) → m = oldModel ∧ oldModel ≠ agent.model := by
    rintro m _ ⟨rfl | ⟨prev, hprev, rfl⟩, hne⟩
    · exact absurd rfl hne
    · rw [hold, hprev]
      exact ⟨rfl, hne⟩
  have hboth : ∀ byModel, Current
      (if oldModel ≠ "" && oldModel ≠ agent.model then
        (rebuildModelBucket (sh agent.model) { r with
          agents := r.agents.put agent.tenantID agent.name agent, byModel := byModel }
            agent.model).rebuildModelBucket (sh oldModel) oldModel
      else rebuildModelBucket (sh agent.model) { r with
          agents := r.agents.put agent.tenantID agent.name agent, byModel := byModel } agent.model)
      (R.set agent) := by
    intro byModel
    have hnew := (h.enter agent byModel).rebuild (sh agent.model) agent.model
    split
    · refine (hnew.rebuild (sh oldModel) oldModel).mono fun m hm hs => ?_
      exact hs.2 (hstale m hm hs.1).1
    next hsame =>
      refine hnew.mono fun m hm hs => hsame ?_
      obtain ⟨rfl, hne⟩ := hstale m hm hs
      simp [hm, hne]
  split
  · refine (hboth _).source ?_ path
    simp [Registered.set]
  · exact hboth _

/-! ## Removing -/

theorem Indexed.removeAgent (h : Indexed stale r R) {agent : AgentDefinition}
    (hreg : R owner name = some agent) :
    Indexed (fun m => stale m ∨ m = agent.model) (r.removeAgent owner agent name) (R.erase owner name) := by
  refine ⟨?_, h.keyed.write nofun, ?_, h.noModel, ?_, h.trimAgents.delete _ _, h.trimIndex,
    h.trimSources.delete _ _⟩
  · intro o n
    rw [AgentRegistry.removeAgent, Table.get_delete, Registered.erase, h.agents]
  · intro m hm hfresh o
    rw [not_or] at hfresh
    refine (h.index m hm hfresh.1 o).congr (Registered.candidate_write ?_ (by simp) o)
    rintro prev hprev rfl
    rw [hreg, some.injEq] at hprev
    exact hfresh.2 (by rw [hprev])
  · intro o n hsrc
    rw [AgentRegistry.removeAgent, Table.get_delete] at hsrc
    rw [Registered.erase]
    split at hsrc
    · cases hsrc
    next hne =>
      rw [if_neg hne]
      exact h.sourced o n hsrc

theorem removeForTenant_indexed (h : Current r R) (printable : Char → Bool)
    (sh : Loops) (name tenantID : String) :
    Current (((r.removeForTenant printable sh name tenantID).toOption.map (·.1)).getD r)
      (R.erase tenantID name) := by
  unfold removeForTenant
  rw [h.agents]
  split
  next hnone =>
    rw [Registered.erase_eq_self hnone]
    exact h
  next agent hreg =>
    refine ((h.removeAgent hreg).rebuild (sh agent.model) agent.model).mono fun m _ hm => ?_
    exact hm.1.elim (fun hf => hf) hm.2

/-- The loop over the owners takes the name from each of them. -/
theorem Indexed.sweep (l : List (Σ _ : String, AList fun _ : String => AgentDefinition))
    (hnodup : (l.map fst).Nodup) (st : Sweep) (h : Indexed (· ∈ st.models) st.registry R)
    (hl : ∀ e ∈ l, R e.1 name = e.2.lookup name) :
    Indexed (· ∈ (l.foldl (sweepOwner name) st).models) (l.foldl (sweepOwner name) st).registry
      ((l.map fst).foldl (fun R o => R.erase o name) R) := by
  induction l generalizing st R with
  | nil => exact h
  | cons e l ih =>
    rw [map_cons, nodup_cons] at hnodup
    rw [map_cons, foldl_cons, foldl_cons]
    have he := hl e mem_cons_self
    have hrest : ∀ e' ∈ l, R.erase e.1 name e'.1 name = e'.2.lookup name := by
      intro e' he'
      rw [Registered.erase, if_neg ?_]
      · exact hl e' (mem_cons_of_mem _ he')
      · rintro ⟨heq, _⟩
        exact hnodup.1 (heq ▸ mem_map_of_mem he')
    refine ih hnodup.2 _ ?_ hrest
    unfold sweepOwner
    cases hfound : e.2.lookup name with
    | none =>
      rw [hfound] at he
      rw [Registered.erase_eq_self he]
      exact h
    | some agent =>
      rw [hfound] at he
      refine (h.removeAgent he).mono fun m hm hs => ?_
      dsimp only
      split
      · rcases hs with hs | rfl
        · exact mem_insert_of_mem hs
        · exact mem_insert_self
      next hempty =>
        rcases hs with hs | rfl
        · exact hs
        · exact absurd hm hempty

/-- A loop that takes nothing changes nothing. -/
theorem sweep_removed (name : String)
    (l : List (Σ _ : String, AList fun _ : String => AgentDefinition)) (st : Sweep)
    (h : (l.foldl (sweepOwner name) st).removed = []) : l.foldl (sweepOwner name) st = st := by
  induction l generalizing st with
  | nil => rfl
  | cons e l ih =>
    rw [foldl_cons] at h ⊢
    have hsame := ih _ h
    rw [hsame] at h ⊢
    unfold sweepOwner at h ⊢
    split at h
    · rfl
    · exact absurd h (by simp)

theorem remove_indexed (h : Current r R) (printable : Char → Bool) (sh : Loops) (name : String) :
    Current (((r.remove printable sh name).toOption.map (·.1)).getD r) (R.step (.remove name)) := by
  set l := (sh "").list r.agents.entries with hl
  have hget : ∀ e ∈ l, R e.1 name = e.2.lookup name := by
    intro e he
    have hmem := mem_lookup_iff.mpr ((sh "").mem_list.mp he)
    rw [← h.agents, Table.get, hmem, bind_some]
  have howner : ∀ owner, owner ∉ l.map fst → R owner name = none := by
    intro owner hnot
    rw [← h.agents, Table.get]
    cases hlook : r.agents.lookup owner with
    | none => rfl
    | some inner =>
      have hmem : (⟨owner, inner⟩ : Σ _ : String, AList fun _ : String => AgentDefinition) ∈ l :=
        (sh "").mem_list.mpr (mem_lookup_iff.mp hlook)
      exact absurd (mem_map_of_mem hmem) hnot
  have hstep : (l.map fst).foldl (fun R o => R.erase o name) R = R.step (.remove name) := by
    funext owner n
    rw [Registered.foldl_erase, Registered.step_remove]
    by_cases hn : n = name
    · by_cases ho : owner ∈ l.map fst
      · rw [if_pos ⟨ho, hn⟩, if_pos hn]
      · rw [if_neg (by simp [ho]), if_pos hn, hn, howner owner ho]
    · rw [if_neg (by simp [hn]), if_neg hn]
  have hnodup : (l.map fst).Nodup :=
    (((sh "").perm r.agents.entries).map fst).nodup_iff.mpr r.agents.keys_nodup
  have hstart : Indexed (· ∈ ([] : List String)) r R := h.mono fun _ _ hf => hf.elim
  have hsweep := Indexed.sweep l hnodup ⟨r, [], []⟩ hstart hget
  rw [hstep] at hsweep
  unfold remove
  dsimp only
  split
  next hnone =>
    rw [sweep_removed name l _ hnone] at hsweep
    exact hsweep.mono (by simp)
  · refine (hsweep.rebuildAll sh _).mono fun m _ hm => ?_
    exact hm.2 ((sh "").mem_list.mpr hm.1)

/-! ## Runs -/

theorem step_indexed (h : Current r R) (printable : Char → Bool) (op : Op × Loops) :
    Current (r.step printable op) (R.step op.1) := by
  have hregister : ∀ agent path, Current (r.registerWithSource op.2 agent path).1
      (R.step (.registerWithSource agent path)) := by
    intro agent path
    cases agent with
    | none => exact h
    | some agent => exact registerLocked_indexed h op.2 agent path
  obtain ⟨op, sh⟩ := op
  cases op with
  | register agent => exact hregister agent ""
  | registerWithSource agent path => exact hregister agent path
  | remove name => exact remove_indexed h printable sh name
  | removeForTenant name tenantID => exact removeForTenant_indexed h printable sh name tenantID

theorem reached_indexed (printable : Char → Bool) (ops : List (Op × Loops)) :
    Current (newAgentRegistry.run printable ops) (Registered.empty.run (ops.map Prod.fst)) := by
  induction ops using reverseRecOn with
  | nil => exact indexed_new
  | append_singleton ops op ih =>
    rw [map_append, Registered.run, run, foldl_append, foldl_append]
    exact step_indexed ih printable op

theorem Indexed.scans (h : Current r R) (hm : model ≠ "") (tenantID : String) :
    R.Scans model tenantID (r.getByModelForTenant model tenantID) := by
  have hown := h.index model hm (fun hf => hf) tenantID
  have hglobal := h.index model hm (fun hf => hf) ""
  unfold getByModelForTenant
  rw [Table.get] at hown hglobal
  cases hl : r.byModelTenant.lookup model with
  | none =>
    rw [hl] at hown hglobal
    exact .inr ⟨hown, hglobal⟩
  | some owners =>
    rw [hl, bind_some] at hown hglobal
    dsimp only
    cases ho : owners.lookup tenantID with
    | none =>
      rw [ho] at hown
      exact .inr ⟨hown, hglobal⟩
    | some agent =>
      rw [ho] at hown
      exact .inl ⟨agent, rfl, hown⟩

end AgentRegistry

/-- After any writes to a new registry, the lookup by model returns what a scan of the
registered agents finds and nothing else; every backing file is that of a registered
agent; and no bucket of the index is empty. -/
theorem model_index_refines_scan (printable : Char → Bool) (ops : List (Op × Loops)) :
    (∀ model tenantID found, model ≠ "" →
      (found = (newAgentRegistry.run printable ops).getByModelForTenant model tenantID ↔
        (Registered.empty.run (ops.map Prod.fst)).Scans model tenantID found)) ∧
    (∀ owner files, (newAgentRegistry.run printable ops).sources.lookup owner = some files →
      ∃ agents, (newAgentRegistry.run printable ops).agents.lookup owner = some agents ∧
        ∀ name ∈ files, name ∈ agents) ∧
    ∀ model owners, (newAgentRegistry.run printable ops).byModelTenant.lookup model = some owners →
      owners.keys ≠ [] := by
  have h := reached_indexed printable ops
  refine ⟨?_, ?_, h.trimIndex⟩
  · intro model tenantID found hm
    have hscan := h.scans hm tenantID
    constructor
    · rintro rfl
      exact hscan
    · exact fun hf => h.keyed.scans_unique hf hscan
  · intro owner files hfiles
    set r := newAgentRegistry.run printable ops with hr
    have hagent : ∀ name, name ∈ files → (r.agents.get owner name).isSome = true := by
      intro name hname
      rw [h.agents]
      refine h.sourced owner name ?_
      rwa [Table.get, hfiles, bind_some, lookup_isSome]
    obtain ⟨name, hname⟩ := h.trimSources.get_isSome hfiles
    rw [Table.get, hfiles, bind_some, lookup_isSome] at hname
    cases hbucket : r.agents.lookup owner with
    | none => exact absurd (hagent name hname) (by simp [Table.get, hbucket])
    | some agents =>
      refine ⟨agents, rfl, fun name hname => ?_⟩
      have := hagent name hname
      rwa [Table.get, hbucket, bind_some, lookup_isSome] at this

end MockAgents.Registry
