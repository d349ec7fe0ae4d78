import MockAgents.Config.Validator
/-!
# What an accepted definition keeps to

A rule that adds no error holds, so that an accepted definition meets every rule.
-/

namespace MockAgents.Config

open Lib Lib.Maps Engine Realtime List

variable {R N F : Type}
variable {α : Type}

theorem ofSection_eq_nil {check : α → List ValidationError} {o : Option α} {a : α}
    (h : ofSection check o = []) (ha : o = some a) : check a = [] := by
  rw [ha] at h
  exact h

theorem flatMap_zipIdx_eq_nil {f : α → Nat → List ValidationError} {l : List α}
    (h : (l.zipIdx.flatMap fun e => f e.1 e.2) = []) {a : α} (ha : a ∈ l) : ∃ i, f a i = [] := by
  obtain ⟨i, hi⟩ := mem_iff_getElem?.mp ha
  have hmem : (a, i) ∈ l.zipIdx := mem_zipIdx_iff_getElem?.mpr hi
  exact ⟨i, flatMap_eq_nil_iff.mp h (a, i) hmem⟩

section Parts
variable [GoFloat F] {v : Checker R} {depth : Nat} {d : AgentDefinition N F} {doc : Option Document}

/-- The parts of the validator that a run of the agent rests on. -/
structure Passed (v : Checker R) (d : AgentDefinition N F) : Prop where
  scenarios : validateScenarios v d = []
  references : validateCrossReferences v d = []
  chaos : validateChaos v d = []

theorem Checker.passed (h : v.validate depth d doc = some []) : Passed v d := by
  obtain ⟨unknown, -, hall⟩ := Option.map_eq_some_iff.mp h
  simp only [append_eq_nil_iff] at hall
  obtain ⟨⟨⟨⟨⟨⟨-, hscenarios⟩, -⟩, hreferences⟩, hchaos⟩, -⟩, -⟩ := hall
  exact ⟨hscenarios, hreferences, hchaos⟩

end Parts

/-! ## Scenarios -/

section Scenarios
variable {v : Checker R} {d : AgentDefinition N F} {sc : Scenario N}
variable {tc : ToolCallSpec (JsonValue.Object N)}

theorem validateScenarioList_mem {i : Nat} {names : List Bytes} {scenarios : List (Scenario N)}
    (h : validateScenarioList v i names scenarios = []) (hsc : sc ∈ scenarios) :
    ∃ i names, validateScenario v names i sc = [] := by
  induction scenarios generalizing i names with
  | nil => cases hsc
  | cons first rest ih =>
    obtain ⟨hfirst, hrest⟩ := append_eq_nil_iff.mp h
    rcases mem_cons.mp hsc with rfl | hmem
    · exact ⟨i, names, hfirst⟩
    · exact ih hrest hmem

theorem validateScenarios_mem (h : validateScenarios v d = []) (hsc : sc ∈ d.scenarios) :
    ∃ i names, validateScenario v names i sc = [] := by
  unfold validateScenarios at h
  split at h
  · cases h
  · exact validateScenarioList_mem h hsc

theorem toolCall_named (h : validateScenarios v d = []) (hsc : sc ∈ d.scenarios)
    (htc : tc ∈ sc.response.toolCalls) : tc.name ≠ [] := by
  obtain ⟨i, names, hscenario⟩ := validateScenarios_mem h hsc
  simp only [validateScenario, append_eq_nil_iff] at hscenario
  obtain ⟨⟨⟨-, hcalls⟩, -⟩, -⟩ := hscenario
  obtain ⟨j, hcall⟩ := flatMap_zipIdx_eq_nil hcalls htc
  simpa [validateToolCallName] using hcall

theorem toolCall_defined (h : validateScenarios v d = []) (hrefs : validateCrossReferences v d = [])
    (hsc : sc ∈ d.scenarios)
    (htc : tc ∈ sc.response.toolCalls) : ∃ tool ∈ d.tools, tool.name = tc.name := by
  have hnamed := toolCall_named h hsc htc
  obtain ⟨i, hcalls⟩ := flatMap_zipIdx_eq_nil
    (f := fun (sc : Scenario N) i => sc.response.toolCalls.zipIdx.flatMap
      fun tc : ToolCallSpec (JsonValue.Object N) × Nat => validateReference v d.tools i tc.1 tc.2) hrefs hsc
  obtain ⟨j, hcall⟩ := flatMap_zipIdx_eq_nil hcalls htc
  simp only [validateReference, broken_eq_nil, Bool.and_eq_false_iff, decide_eq_false_iff_not,
    Bool.not_eq_false', any_eq_true, decide_eq_true_eq] at hcall
  rcases hcall with hempty | hdefined
  · exact absurd hnamed hempty
  · exact hdefined

theorem contentRegex_compiles (h : validateScenarios v d = []) (hsc : sc ∈ d.scenarios)
    {rule : MatchRule} (hrule : sc.rule = some rule) (hregex : rule.contentRegex ≠ []) :
    ∃ re, v.compile rule.contentRegex = .ok re := by
  obtain ⟨i, names, hscenario⟩ := validateScenarios_mem h hsc
  simp only [validateScenario, append_eq_nil_iff, hrule] at hscenario
  obtain ⟨⟨-, hmatch⟩, -⟩ := hscenario
  simp only [validateMatchRule, append_eq_nil_iff] at hmatch
  obtain ⟨-, hcompile⟩ := hmatch
  rw [if_neg hregex] at hcompile
  cases hre : v.compile rule.contentRegex with
  | ok re => exact ⟨re, rfl⟩
  | error err => simp [hre] at hcompile

end Scenarios

/-! ## Chaos -/

section Chaos
variable [GoFloat F] {v : Checker R} {d : AgentDefinition N F} {c : ChaosBlock F}

theorem errors_bounded (h : validateChaos v d = []) (hc : d.chaos = some c) {e : ChaosErrorConfig F}
    (he : c.errors = some e) : 0 ≤ e.timeoutMs ∧ e.timeoutMs ≤ maxChaosMs := by
  have hblock := ofSection_eq_nil h hc
  simp only [validateChaosBlock, append_eq_nil_iff] at hblock
  obtain ⟨⟨⟨-, herrors⟩, -⟩, -⟩ := hblock
  have hsection := ofSection_eq_nil herrors he
  simp only [validateErrors, append_eq_nil_iff] at hsection
  obtain ⟨⟨-, htimeout⟩, -⟩ := hsection
  simp only [validateMs, broken_eq_nil, outOfRange, Bool.or_eq_false_iff, decide_eq_false_iff_not,
    not_lt] at htimeout
  exact htimeout

end Chaos

end MockAgents.Config
