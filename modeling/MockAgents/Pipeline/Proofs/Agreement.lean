import MockAgents.Pipeline.Proofs.Coloring
import MockAgents.Pipeline.Proofs.Dataflow
/-!
# The validator and the executor agree

The peeling loop of the executor and the colouring of the validator decide the
same predicate, so a graph pipeline the validator accepts runs without a cycle
error and without meeting an unknown node.
-/

namespace MockAgents.Pipeline.Proofs

open Lib Lib.Digraph Relation List

variable (printable : Char → Bool)
variable {order : List String} {unknownFields : List ValidationError} {doc : PipelineDefinition}

/-! ## What acceptance means -/

theorem agentErrors_ids (i : Nat) (seen : String → Option Nat) (agents : List PipelineAgent)
    (h : (agentErrors printable i seen agents).1 = []) : ∀ a ∈ agents, a.id ≠ "" := by
  induction agents generalizing i seen with
  | nil => simp
  | cons a as ih =>
    intro x hx hempty
    rw [agentErrors] at h
    by_cases ha : a.id = ""
    · simp [ha] at h
    · rcases mem_cons.mp hx with rfl | hx
      · exact ha hempty
      · simp only [ha, if_false] at h
        split at h
        · simp at h
        · exact ih _ _ (append_eq_nil_iff.mp h).2 x hx hempty

theorem agentErrors_seen (i : Nat) (seen : String → Option Nat) (agents : List PipelineAgent)
    (id : String) (h : ((agentErrors printable i seen agents).2 id).isNone = false) :
    (seen id).isNone = false ∨ id ∈ agents.map (·.id) := by
  induction agents generalizing i seen with
  | nil => exact .inl h
  | cons a as ih =>
    rw [agentErrors] at h
    rw [map_cons, mem_cons]
    by_cases ha : a.id = ""
    · simp only [ha, if_true] at h
      exact (ih _ _ h).imp_right .inr
    · simp only [ha, if_false] at h
      split at h
      · exact (ih _ _ h).imp_right .inr
      · by_cases heq : id = a.id
        · exact .inr (.inl heq)
        · rcases ih _ _ h with hseen | hmem
          · rw [Function.update_of_ne heq] at hseen
            exact .inl hseen
          · exact .inr (.inr hmem)

theorem endpointErrors_nil {seen : String → Option Nat} {field key id : String}
    (h : endpointErrors printable seen field key id = []) : (seen id).isNone = false := by
  rw [endpointErrors] at h
  by_cases hid : id = ""
  · simp [hid] at h
  · rw [if_neg hid] at h
    by_cases hseen : (seen id).isNone = true
    · simp [hseen] at h
    · exact Bool.eq_false_iff.mpr hseen

theorem edgeErrors_endpoints (seen : String → Option Nat) (i : Nat)
    (seenEdges : PipelineEdge → Option Nat) (edges : List PipelineEdge)
    (h : edgeErrors printable seen i seenEdges edges = []) :
    ∀ e ∈ edges, (seen e.toID).isNone = false := by
  induction edges generalizing i seenEdges with
  | nil => simp
  | cons e es ih =>
    rw [edgeErrors] at h
    have hsplit : endpointErrors printable seen s!"spec.edges[{i}]" "to" e.toID = [] ∧
        ∃ j next, edgeErrors printable seen j next es = [] := by
      split at h
      · simp only [append_eq_nil_iff] at h
        exact ⟨h.1.1.1.2, _, _, h.2⟩
      · split at h
        · simp at h
        · simp only [append_eq_nil_iff] at h
          exact ⟨h.1.1.1.2, _, _, h.2⟩
    obtain ⟨hto, j, next, hrest⟩ := hsplit
    intro x hx
    rcases mem_cons.mp hx with rfl | hx
    · exact endpointErrors_nil printable hto
    · exact ih j next hrest x hx

/-- An accepted document names its nodes, wires declared ones and has passed the
graph check. -/
theorem accepted_spec (h : validatePipeline printable order unknownFields doc = some []) :
    doc.spec.agents ≠ [] ∧ (∀ a ∈ doc.spec.agents, a.id ≠ "") ∧
      (∀ e ∈ doc.spec.edges, doc.spec.Declared e.toID) ∧
      validatePipelineGraph printable order doc = some [] := by
  obtain ⟨graph, hgraph, hnil⟩ := Option.map_eq_some_iff.mp h
  simp only [append_eq_nil_iff] at hnil
  obtain ⟨⟨_, hspec⟩, rfl⟩ := hnil
  simp only [validatePipelineSpec, append_eq_nil_iff] at hspec
  obtain ⟨⟨⟨_, hagents⟩, hids⟩, hedges⟩ := hspec
  refine ⟨?_, agentErrors_ids printable _ _ _ hids, ?_, hgraph⟩
  · intro hempty
    simp [hempty] at hagents
  · intro e he
    have hne : doc.spec.edges.isEmpty = false := by
      cases hes : doc.spec.edges with
      | nil => simp [hes] at he
      | cons x xs => rfl
    rw [hne] at hedges
    simp only [Bool.false_eq_true, if_false, append_eq_nil_iff] at hedges
    have hseen := edgeErrors_endpoints printable _ _ _ _ hedges.2 e he
    rcases agentErrors_seen printable _ _ _ _ hseen with hnone | hmem
    · simp at hnone
    · exact hmem

theorem accepted_acyclic (hgraph : doc.spec.topology = .graph)
    (h : validatePipeline printable order unknownFields doc = some []) : Acyclic doc.spec.Edge := by
  obtain ⟨hagents, hids, _, hcheck⟩ := accepted_spec printable h
  obtain ⟨found, errors, hdetect, hacyclic, herrors⟩ :=
    detectPipelineCycle_acyclic printable doc.spec hids
  rw [validatePipelineGraph, if_neg (by simp [hgraph]), if_neg (by simpa using hagents),
    hdetect] at hcheck
  cases found with
  | true => exact absurd (Option.some.inj hcheck) (herrors.mp rfl)
  | false => exact hacyclic.mp rfl

/-- **Validation and execution agree on cycles.**  On nodes with non-empty ids
the peeling loop, under every iteration order, reports nothing exactly when the
colouring does, exactly when the counted edges are acyclic, and a run on a cyclic
graph invokes nothing.  Hence an accepted graph pipeline fails at run time
neither with a cycle nor with an unknown node. -/
theorem validator_executor_agree :
    (∀ (spec : PipelineSpec) (order : List String), (∀ a ∈ spec.agents, a.id ≠ "") →
      IterationOrder spec order →
      ∃ cyclic found errors,
        cyclicNodes order spec.agents (outgoing spec) (indegree spec) = some cyclic ∧
        detectPipelineCycle printable spec = some (found, errors) ∧
        (cyclic = [] ↔ found = false) ∧ (cyclic = [] ↔ Acyclic spec.Edge) ∧
        (cyclic ≠ [] → ∀ (ε : Type) (pipeline : String)
          (invokeNode : PipelineAgent → Bytes → Except ε Bytes) (userMsg : Bytes),
          runGraph pipeline spec invokeNode userMsg order =
            some ([], some (.pipelineCycle cyclic)))) ∧
    (∀ (doc : PipelineDefinition) (keys order : List String)
      (unknownFields : List ValidationError), doc.spec.topology = .graph →
      validatePipeline printable keys unknownFields doc = some [] →
      IterationOrder doc.spec order →
      ∀ (ε : Type) (invokeNode : PipelineAgent → Bytes → Except ε Bytes) (userMsg : Bytes),
      ∃ nodes err, runContext order doc invokeNode userMsg = some (nodes, err) ∧
        (∀ ids, err ≠ some (.pipelineCycle ids)) ∧
        ∀ pipeline node, err ≠ some (.unknownNode pipeline node)) := by
  constructor
  · intro spec order hids horder
    obtain ⟨cyclic, hpeel, hnil⟩ := cyclicNodes_spec horder
    obtain ⟨found, errors, hdetect, hfound, _⟩ := detectPipelineCycle_acyclic printable spec hids
    refine ⟨cyclic, found, errors, hpeel, hdetect, hnil.trans hfound.symm, hnil, ?_⟩
    intro hne ε pipeline invokeNode userMsg
    rw [runGraph, hpeel]
    cases cyclic with
    | nil => exact absurd rfl hne
    | cons id ids => rfl
  · intro doc keys order unknownFields hgraph haccept horder ε invokeNode userMsg
    obtain ⟨hagents, _, hedges, _⟩ := accepted_spec printable haccept
    obtain ⟨nodes, err, hrun, hresult⟩ := @runGraph_spec ε doc.spec invokeNode userMsg order
      doc.name horder (accepted_acyclic printable hgraph haccept)
    refine ⟨nodes, err, ?_, ?_, ?_⟩
    · rw [runContext, if_neg (by simpa using hagents), hgraph]
      exact hrun
    · rintro ids rfl
      exact hresult
    · rintro pipeline node rfl
      exact not_danglingFire hedges nodes hresult

/-- Both halves at the diamond: it is accepted, and every run of it is free of
cycle and unknown-node errors. -/
theorem validator_executor_agree_diamond :
    validatePipeline (fun _ => true) ["a", "b", "c", "d"] [] diamond = some [] ∧
      (∃ cyclic found errors,
        cyclicNodes ["d", "b", "a", "c"] diamond.spec.agents (outgoing diamond.spec)
          (indegree diamond.spec) = some cyclic ∧
        detectPipelineCycle (fun _ => true) diamond.spec = some (found, errors) ∧
        (cyclic = [] ↔ found = false)) ∧
      ∃ nodes err, runContext ["d", "b", "a", "c"] diamond
          (fun _ _ => (.error () : Except Unit Bytes)) [] = some (nodes, err) ∧
        ∀ ids, err ≠ some (.pipelineCycle ids) := by
  have haccept : validatePipeline (fun _ => true) ["a", "b", "c", "d"] [] diamond = some [] := by
    decide
  obtain ⟨hagree, hrun⟩ := validator_executor_agree fun _ => true
  obtain ⟨cyclic, found, errors, hpeel, hdetect, hiff, _⟩ :=
    hagree diamond.spec _ (by decide) diamond_order
  obtain ⟨nodes, err, hrun, hcycle, _⟩ := hrun diamond _ _ [] rfl haccept diamond_order Unit
    (fun _ _ => .error ()) []
  exact ⟨haccept, ⟨cyclic, found, errors, hpeel, hdetect, hiff⟩, nodes, err, hrun, hcycle⟩

end MockAgents.Pipeline.Proofs
