import MockAgents.Registry.Proofs.Index
/-!
# Tenants do not see each other

The reads of a tenant depend on the agents owned by nobody and by the tenant itself, so
two runs that agree on the writes to those agents agree on every read.
-/

namespace MockAgents.Registry

open Lib Lib.Maps List Option AList Registered

namespace Registered

/-! ## The writes a tenant can see -/

/-- The write registers or removes an agent owned by nobody or by the tenant. -/
def touches (tenantID : String) (R : Registered) : Op → Bool
  | .register agent | .registerWithSource agent _ =>
    match agent with
    | none => false
    | some agent => agent.tenantID = "" || agent.tenantID = tenantID
  | .remove name => (R "" name).isSome || (R tenantID name).isSome
  | .removeForTenant name owner => (owner = "" || owner = tenantID) && (R owner name).isSome

/-- The writes of a sequence, made to `R`, that touch an agent the tenant can see. -/
def visibleOps (tenantID : String) : Registered → List Op → List Op
  | _, [] => []
  | R, op :: ops =>
    (if R.touches tenantID op then [op] else []) ++ visibleOps tenantID (R.step op) ops

def Agree (tenantID : String) (R R' : Registered) : Prop :=
  ∀ owner, owner = "" ∨ owner = tenantID → ∀ name, R owner name = R' owner name
variable {tenantID : String} {R R' : Registered}

theorem Agree.step (h : Agree tenantID R R') (op : Op) :
    Agree tenantID (R.step op) (R'.step op) := by
  intro owner ho name
  have hsame := h owner ho name
  cases op with
  | register agent =>
    cases agent with
    | none => exact hsame
    | some agent => simp only [Registered.step, set, hsame]
  | registerWithSource agent path =>
    cases agent with
    | none => exact hsame
    | some agent => simp only [Registered.step, set, hsame]
  | remove n => simp only [Registered.step, hsame]
  | removeForTenant n t => simp only [Registered.step, erase, hsame]

/-- A write that touches no agent of the tenant changes nothing it can see. -/
theorem agree_of_not_touches {op : Op}
    (h : R.touches tenantID op = false) : Agree tenantID (R.step op) R := by
  intro owner ho name
  have hset : ∀ agent : AgentDefinition,
      (decide (agent.tenantID = "") || decide (agent.tenantID = tenantID)) = false →
      R.set agent owner name = R owner name := by
    intro agent hagent
    simp only [Bool.or_eq_false_iff, decide_eq_false_iff_not] at hagent
    refine if_neg ?_
    rintro ⟨rfl, _⟩
    exact ho.elim hagent.1 hagent.2
  cases op with
  | register agent =>
    cases agent with
    | none => rfl
    | some agent => exact hset agent h
  | registerWithSource agent path =>
    cases agent with
    | none => rfl
    | some agent => exact hset agent h
  | remove n =>
    simp only [touches, Bool.or_eq_false_iff, isSome_eq_false_iff, isNone_iff_eq_none] at h
    rw [step_remove]
    split
    next hn =>
      rw [hn]
      rcases ho with rfl | rfl
      · exact h.1.symm
      · exact h.2.symm
    · rfl
  | removeForTenant n t =>
    simp only [Registered.step, erase]
    split
    next heq =>
      obtain ⟨rfl, rfl⟩ := heq
      have howned : (decide (owner = "") || decide (owner = tenantID)) = true := by simpa using ho
      simp only [touches, howned, Bool.true_and, isSome_eq_false_iff, isNone_iff_eq_none] at h
      exact h.symm
    · rfl

/-- What a tenant sees of a run is what the visible writes alone leave. -/
theorem agree_run (tenantID : String) (ops : List Op) (h : Agree tenantID R R') :
    Agree tenantID (R.run ops) (R'.run (visibleOps tenantID R ops)) := by
  induction ops generalizing R R' with
  | nil => exact h
  | cons op ops ih =>
    rw [visibleOps]
    by_cases ht : R.touches tenantID op = true
    · rw [if_pos ht]
      exact ih (h.step op)
    · rw [if_neg ht]
      refine ih fun owner ho name => ?_
      rw [agree_of_not_touches (by simpa using ht) owner ho name, h owner ho name]

theorem Agree.candidate (h : Agree tenantID R R') {owner : String}
    (ho : owner = "" ∨ owner = tenantID) (model : String) :
    R.Candidate model owner = R'.Candidate model owner := by
  funext agent
  simp only [Candidate, h owner ho]

theorem Agree.scans (h : Agree tenantID R R') (model : String)
    {found : Option AgentDefinition} (hf : R.Scans model tenantID found) :
    R'.Scans model tenantID found := by
  rw [Scans, h.candidate (.inl rfl), h.candidate (.inr rfl)] at hf
  exact hf

end Registered

/-! ## Listings -/

theorem lookup_foldl_insert {l : List (Σ _ : String, AgentDefinition)} (hnodup : (l.map Sigma.fst).Nodup)
    (m : AList fun _ : String => AgentDefinition) (name : String) :
    (l.foldl (fun m e => m.insert e.1 e.2) m).lookup name = (l.dlookup name <|> m.lookup name) := by
  induction l generalizing m with
  | nil => rfl
  | cons e l ih =>
    obtain ⟨n, agent⟩ := e
    rw [map_cons, nodup_cons] at hnodup
    rw [foldl_cons, ih hnodup.2]
    by_cases hn : name = n
    · subst hn
      have hnone : l.dlookup name = none := dlookup_eq_none.mpr hnodup.1
      rw [hnone, dlookup_cons_eq, lookup_insert]
      rfl
    · rw [dlookup_cons_ne _ _ hn, lookup_insert_ne hn]

namespace AgentRegistry

theorem lookup_enterAll (sh : Shuffle) (bucket merged : AList fun _ : String => AgentDefinition)
    (name : String) :
    (enterAll sh bucket merged).lookup name = (bucket.lookup name <|> merged.lookup name) := by
  have hperm := sh.perm bucket.entries
  have hnodup : ((sh.list bucket.entries).map Sigma.fst).Nodup :=
    (hperm.map Sigma.fst).nodup_iff.mpr bucket.keys_nodup
  rw [enterAll, lookup_foldl_insert hnodup, perm_dlookup name hnodup hperm]
  rfl

theorem lookup_bucket (r : AgentRegistry) (owner name : String) :
    (r.bucket owner).lookup name = r.agents.get owner name := by
  rw [bucket, Table.get]
  cases r.agents.lookup owner <;> simp

/-- The merged map holds what the lookup by name returns. -/
theorem lookup_mergedForTenant (sh : Shuffle) (r : AgentRegistry) (tenantID name : String) :
    (r.mergedForTenant sh tenantID).lookup name = r.getForTenant name tenantID := by
  unfold mergedForTenant getForTenant
  dsimp only
  by_cases ht : tenantID = ""
  · subst ht
    rw [if_neg (by simp), lookup_enterAll, lookup_bucket]
    cases r.agents.get "" name <;> rfl
  · rw [if_pos ht, lookup_enterAll, lookup_enterAll, lookup_bucket, lookup_bucket]
    cases r.agents.get tenantID name with
    | none =>
      rw [if_pos ht]
      cases r.agents.get "" name <;> rfl
    | some agent => rfl

variable {r r' : AgentRegistry} {R R' : Registered}
variable {tenantID : String}

theorem Indexed.name_of_get (h : Current r R) {name : String}
    {agent : AgentDefinition} (hget : r.getForTenant name tenantID = some agent) : agent.name = name := by
  unfold getForTenant at hget
  rw [h.agents, h.agents] at hget
  split at hget
  next found hfound =>
    obtain rfl := some.inj hget
    exact (h.keyed _ _ _ hfound).2
  · split at hget
    · exact (h.keyed _ _ _ hget).2
    · cases hget

section
variable (h : Current r R) (h' : Current r' R')
  (hag : R.Agree tenantID R')
include h h' hag

theorem getForTenant_eq (name : String) :
    r.getForTenant name tenantID = r'.getForTenant name tenantID := by
  unfold getForTenant
  rw [h.agents, h.agents, h'.agents, h'.agents, hag tenantID (.inr rfl), hag "" (.inl rfl)]

theorem getByModelForTenant_eq (model : String) :
    r.getByModelForTenant model tenantID = r'.getByModelForTenant model tenantID := by
  by_cases hm : model = ""
  · subst hm
    rw [getByModelForTenant, getByModelForTenant, h.noModel, h'.noModel]
  · exact h'.keyed.scans_unique (hag.scans model (h.scans hm tenantID)) (h'.scans hm tenantID)

theorem merged_perm (sh sh' : Shuffle) :
    (sh.list (r.mergedForTenant sh tenantID).entries).Perm
      (sh'.list (r'.mergedForTenant sh' tenantID).entries) := by
  refine (sh.perm _).trans (Perm.trans ?_ (sh'.perm _).symm)
  refine lookup_ext (nodupKeys _) (nodupKeys _) fun name agent => ?_
  have hlookup : (r.mergedForTenant sh tenantID).lookup name = (r'.mergedForTenant sh' tenantID).lookup name := by
    rw [lookup_mergedForTenant, lookup_mergedForTenant, getForTenant_eq h h' hag]
  rw [AList.lookup, AList.lookup] at hlookup
  rw [hlookup]

theorem listForTenant_eq (sh sh' : Shuffle) :
    r.listForTenant sh tenantID = r'.listForTenant sh' tenantID := by
  refine mergeSort_eq_of_perm AgentDefinition.name ((merged_perm h h' hag sh sh').map _) ?_
  -- two agents of one listing have different names
  have hkey : ∀ agent ∈ (sh.list (r.mergedForTenant sh tenantID).entries).map (·.2),
      r.getForTenant agent.name tenantID = some agent := by
    intro agent hmem
    obtain ⟨⟨name, a⟩, he, rfl⟩ := mem_map.mp hmem
    have hget := mem_lookup_iff.mpr (sh.mem_list.mp he)
    rw [lookup_mergedForTenant] at hget
    rw [h.name_of_get hget]
    exact hget
  intro a ha b hb heq
  have hb' := hkey b hb
  rw [← heq, hkey a ha, some.injEq] at hb'
  exact hb'

theorem listNamesForTenant_eq (sh sh' : Shuffle) :
    r.listNamesForTenant sh tenantID = r'.listNamesForTenant sh' tenantID :=
  mergeSort_eq_of_perm (fun name : String => name) ((merged_perm h h' hag sh sh').map _)
    fun _ _ _ _ heq => heq

theorem resolveAgentForTenant_eq (printable : Char → Bool) (sh sh' : Shuffle) (req : InboundRequest) :
    resolveAgentForTenant printable sh r req tenantID =
      resolveAgentForTenant printable sh' r' req tenantID := by
  have honly : onlyAgent sh r tenantID = onlyAgent sh' r' tenantID := by
    unfold onlyAgent
    split
    next ht =>
      subst ht
      rw [listForTenant_eq h h' hag sh sh']
    · rfl
  unfold resolveAgentForTenant
  rw [getForTenant_eq h h' hag, getByModelForTenant_eq h h' hag, honly,
    listNamesForTenant_eq h h' hag sh sh']

end

end AgentRegistry

open AgentRegistry

/-- Two sequences of writes whose writes to the agents of nobody and of the tenant are
the same leave registries in which every read of the tenant, and the agent of every
request of it, is the same, whatever the order of the loops. -/
theorem tenant_noninterference (printable : Char → Bool) (tenantID : String)
    (ops ops' : List (Op × Loops))
    (hvisible : Registered.visibleOps tenantID .empty (ops.map Prod.fst) =
      Registered.visibleOps tenantID .empty (ops'.map Prod.fst)) :
    ∀ r r', newAgentRegistry.run printable ops = r → newAgentRegistry.run printable ops' = r' →
      (∀ name, r.getForTenant name tenantID = r'.getForTenant name tenantID) ∧
      (∀ model, r.getByModelForTenant model tenantID = r'.getByModelForTenant model tenantID) ∧
      ∀ sh sh', r.listForTenant sh tenantID = r'.listForTenant sh' tenantID ∧
        r.listNamesForTenant sh tenantID = r'.listNamesForTenant sh' tenantID ∧
        ∀ req, resolveAgentForTenant printable sh r req tenantID =
          resolveAgentForTenant printable sh' r' req tenantID := by
  rintro r r' rfl rfl
  have h := reached_indexed printable ops
  have h' := reached_indexed printable ops'
  have hsame : ∀ R : Registered, R.Agree tenantID R := fun _ _ _ _ => rfl
  have hag : (empty.run (ops.map Prod.fst)).Agree tenantID
      (empty.run (ops'.map Prod.fst)) := by
    intro owner ho name
    rw [agree_run tenantID _ (hsame .empty) owner ho name, hvisible,
      ← agree_run tenantID _ (hsame .empty) owner ho name]
  refine ⟨getForTenant_eq h h' hag, getByModelForTenant_eq h h' hag, fun sh sh' => ?_⟩
  exact ⟨listForTenant_eq h h' hag sh sh', listNamesForTenant_eq h h' hag sh sh',
    resolveAgentForTenant_eq h h' hag printable sh sh'⟩

/-- Tenant `t2` registers an agent under the name and model of a global one and takes
another away, in between the writes that `t1` can see. -/
def sharedWrites : List Op :=
  [.register (some ⟨1, "", "helper", "gpt-4o"⟩), .register (some ⟨2, "t2", "helper", "gpt-4o"⟩),
    .register (some ⟨3, "t1", "writer", "gpt-4o"⟩),
    .registerWithSource (some ⟨4, "t2", "a-helper", "gpt-4o"⟩) "agents/a.yaml",
    .removeForTenant "helper" "t2",
    .remove "a-helper"]

def ownWrites : List Op :=
  [.register (some ⟨1, "", "helper", "gpt-4o"⟩), .register (some ⟨3, "t1", "writer", "gpt-4o"⟩)]

def inOrder (ops : List Op) : List (Op × Loops) := ops.map fun op => (op, fun _ => .stored)

theorem tenant_noninterference_shared :
    (newAgentRegistry.run (fun _ => true) (inOrder sharedWrites)).getByModelForTenant "gpt-4o" "t1" =
      (newAgentRegistry.run (fun _ => true) (inOrder ownWrites)).getByModelForTenant "gpt-4o" "t1" := by
  have hvisible : visibleOps "t1" .empty ((inOrder sharedWrites).map Prod.fst) =
      visibleOps "t1" .empty ((inOrder ownWrites).map Prod.fst) := by decide
  exact (tenant_noninterference (fun _ => true) "t1" _ _ hvisible _ _ rfl rfl).2.1 "gpt-4o"

end MockAgents.Registry
