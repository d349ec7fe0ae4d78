import MockAgents.Config.Proofs.Validator
import MockAgents.Engine.Proofs.Matching
import MockAgents.Engine.ToolProcessor
import MockAgents.Realtime.Exact
/-!
# Accepted definitions at run time

What the validator accepts does not fail from configuration: the calls of a scenario find
their tool, a pattern compiles whenever the matcher needs it, and what the injector returns or
sleeps is in its bounds.
-/

namespace MockAgents.Engine

open Lib Lib.Maps Lib.Utf8 Config Realtime List

variable {N F : Type}

/-! ## Tools -/

theorem lookup_indexTools (tools : List (ToolDefinition N F)) (name : Bytes) :
    (indexTools tools).lookup name = tools.reverse.find? fun tool => tool.name = name := by
  induction tools using reverseRecOn with
  | nil => rfl
  | append_singleton tools tool ih =>
    rw [indexTools, foldl_append, foldl_cons, foldl_nil, ← indexTools,
      reverse_append, reverse_singleton, singleton_append]
    by_cases hname : tool.name = name
    · subst hname
      simp
    · rw [AList.lookup_insert_ne (Ne.symm hname), ih]
      simp [hname]

theorem exists_lookup_indexTools {tools : List (ToolDefinition N F)} {name : Bytes}
    (h : ∃ tool ∈ tools, tool.name = name) :
    ∃ tool ∈ tools, tool.name = name ∧ (indexTools tools).lookup name = some tool := by
  obtain ⟨tool, htool, hname⟩ := h
  have hsome : (tools.reverse.find? fun tool => tool.name = name).isSome := by
    rw [find?_isSome]
    exact ⟨tool, mem_reverse.mpr htool, by simpa using hname⟩
  obtain ⟨found, hfound⟩ := Option.isSome_iff_exists.mp hsome
  refine ⟨found, mem_reverse.mp (mem_of_find?_eq_some hfound), ?_, ?_⟩
  · simpa using find?_some hfound
  · rw [lookup_indexTools, hfound]

section
variable [GoFloat F]

/-- Calls that name tools leave `ProcessToolCalls` without an error. -/
theorem processToolCalls_ok (env : ToolEnv N F) (draw : Nat → ToolDraw)
    {toolCalls : List (ToolCallSpec (JsonValue.Object N))} {tools : List (ToolDefinition N F)}
    (h : ∀ tc ∈ toolCalls, ∃ tool ∈ tools, tool.name = tc.name) :
    (processToolCalls env draw toolCalls tools).2 = none := by
  simp only [processToolCalls, findSome?_eq_none_iff, mem_map]
  rintro _ ⟨⟨tc, i⟩, hmem, rfl⟩
  have htc : tc ∈ toolCalls := mem_of_getElem? (mem_zipIdx_iff_getElem?.mp hmem)
  obtain ⟨tool, -, -, hlookup⟩ := exists_lookup_indexTools (h tc htc)
  simp only [processOne, hlookup, answer]
  -- past the lookup only the parameters can fail
  split
  · rfl
  · split
    · rfl
    · split <;> rfl

end

/-! ## Faults -/

/-- What the injector may return for an agent. -/
inductive Fault (settings : Settings F) (agent : Agent F) : ChaosError → Prop where
  | rateLimit (retryAfter : Int) : Fault settings agent (rateLimitError retryAfter)
  | error (ch : Choice F) (e : ChaosErrorConfig F) (rate : F)
      (configured : (chaosFor agent).bind (·.errors) = some e) :
      Fault settings agent (errorFault settings ch { e with rate := rate })
  | connection (c : ChaosConnectionConfig F) : Fault settings agent (connectionFault c)

/-! ### Bounds -/

section Bounds
variable {settings : Settings F} {agent : Agent F} {err : ChaosError}

def maxDelay : Int := millisecond maxChaosLatencyMs

theorem millisecond_bounded {ms : Int} (h : 0 ≤ ms) (hle : ms ≤ maxChaosLatencyMs) :
    0 ≤ millisecond ms ∧ millisecond ms ≤ maxDelay := by
  have hexact : ∀ n : Int, 0 ≤ n → n ≤ 60000 → millisecond n = n * 1000000 := by
    intro n hn hle
    exact Int.bmod_eq_of_le (by omega) (by omega)
  rw [maxDelay, hexact ms h hle, hexact maxChaosLatencyMs (by decide) le_rfl]
  omega

def IsErrorStatus (status : Int) : Prop :=
  status = 429 ∨ status = 504 ∨ (400 ≤ status ∧ status ≤ 599)

instance (status : Int) : Decidable (IsErrorStatus status) := by
  unfold IsErrorStatus
  infer_instance

theorem Fault.status (h : Fault settings agent err) :
    err.connection ≠ "" ∨ IsErrorStatus err.statusCode := by
  cases h with
  | rateLimit retryAfter => exact .inr (.inl rfl)
  | connection c =>
    refine .inl ?_
    unfold connectionFault
    split
    · decide
    next hmode => exact hmode
  | error ch e rate configured =>
    refine .inr ?_
    unfold errorFault
    split
    · exact .inr (.inl rfl)
    · dsimp only
      split
      · exact .inr (.inr (by decide))
      next hstatus =>
        rw [not_or, not_lt, not_lt] at hstatus
        exact .inr (.inr hstatus)

theorem Fault.delay (h : Fault settings agent err) (htimeout : err.timeout = true)
    (hbounds : ∀ e, (chaosFor agent).bind (·.errors) = some e →
      0 ≤ e.timeoutMs ∧ e.timeoutMs ≤ maxChaosLatencyMs) : 0 ≤ err.retryAfter ∧ err.retryAfter ≤ maxDelay := by
  cases h with
  | rateLimit | connection => cases htimeout
  | error ch e rate configured =>
    obtain ⟨hlow, hhigh⟩ := hbounds e configured
    have hms := millisecond_bounded hlow hhigh
    cases hset : e.timeout with
    | true =>
      exact ⟨le_min hms.1 (by decide), min_le_right _ _⟩
    | false => simp [errorFault, hset] at htimeout

end Bounds

/-! ### Runs -/

section Runs
variable [GoFloat F] {settings : Settings F}

def Task.Configured (settings : Settings F) : Task F → Prop
  | .before agent (.errorTrigger e) =>
    ∃ e₀ rate, (chaosFor agent).bind (·.errors) = some e₀ ∧ e = { e₀ with rate := rate }
  | .before agent (.done (some err)) => Fault settings agent err
  | .after _ (some (some delay)) => ∃ ch l, delay = sampleLatency (F := F) ch l
  | _ => True

theorem errorsStep_configured (s : Shared) (agent : Agent F) :
    (Task.before agent (errorsStep settings s agent).2).Configured settings := by
  unfold errorsStep
  split
  · trivial
  next e he =>
    split
    · split
      · dsimp only
        split
        · exact ⟨e, GoFloat.ofInt 1, he, rfl⟩
        · trivial
      · exact ⟨e, e.rate, he, rfl⟩
    · trivial

omit [GoFloat F] in
theorem checkRateLimit_fault (s : Shared) (agent : Agent F) (rl : ChaosRateLimitConfig) (now : Int)
    {err : ChaosError} (h : (checkRateLimit s (chaosKey agent) rl now).2 = some err) :
    Fault settings agent err := by
  unfold checkRateLimit at h
  dsimp only at h
  split at h
  · cases h
  · split at h
    · cases h
    · split at h
      · cases h
        exact .rateLimit _
      · cases h

theorem Task.Configured.next {t : Task F} (h : t.Configured settings) (ch : Choice F) (s : Shared) :
    (t.next settings ch s).2.Configured settings := by
  cases t with
  | before agent pc =>
    cases pc with
    | clock rl => trivial
    | limit rl now =>
      simp only [Task.next, beforeStep]
      split
      next err herr => exact checkRateLimit_fault s agent rl now herr
      next => trivial
    | errors => exact errorsStep_configured s agent
    | errorTrigger e =>
      obtain ⟨e₀, rate, he₀, rfl⟩ := h
      simp only [Task.next, beforeStep]
      split
      · exact .error ch e₀ rate he₀
      · trivial
    | connection =>
      simp only [Task.next, beforeStep, connectionStep]
      split
      · trivial
      · split
        · split
          · dsimp only
            split <;> trivial
          · trivial
        · trivial
    | connectionTrigger c =>
      simp only [Task.next, beforeStep]
      split
      · exact .connection c
      · trivial
    | done err => exact h
  | after agent delay =>
    cases delay with
    | some delay => exact h
    | none =>
      simp only [Task.next]
      unfold afterStep
      split
      · trivial
      next l hl =>
        dsimp only
        split
        · exact ⟨ch, l, rfl⟩
        · trivial
  | reset agent finished => cases finished <;> trivial

theorem start_configured (call : Call F) : (Task.start call).Configured settings := by
  cases call with
  | before agent =>
    simp only [Task.start]
    unfold BeforePc.first
    split
    · trivial
    · split
      · trivial
      · split <;> trivial
  | after | reset => trivial

theorem configured_run (acts : List (Act (Call F) (Choice F))) {i : Nat} {t : Task F}
    (h : ((chaos settings).run opened acts).calls[i]? = some t) : t.Configured settings := by
  have hall : System.Holds (fun _ => True) (fun _ _ t => t.Configured settings)
      ((chaos settings).run opened acts) := by
    refine System.run_induction
      (P := System.Holds (fun _ => True) fun _ _ (t : Task F) => t.Configured settings)
      (fun w a hw => ?_) ⟨trivial, fun i t h => by cases h⟩ acts
    refine System.Holds.act hw (fun call _ => start_configured call) ?_ ?_
    · exact fun j ch u _ hj => ⟨trivial, (hw.2 j u hj).next ch w.shared⟩
    · exact fun j ch u k other _ _ hk _ => hw.2 k other hk
  exact hall.2 i t h

end Runs

/-! ## The whole -/

/-- An agent runs with the chaos block of a definition. -/
def Runs (d : AgentDefinition N F) (agent : Agent F) : Prop :=
  agent.chaos = d.chaos.map (·.toChaosConfig)

theorem Runs.errors {d : AgentDefinition N F} {agent : Agent F} (h : Runs d agent)
    {e : ChaosErrorConfig F} (he : (chaosFor agent).bind (·.errors) = some e) :
    ∃ c, d.chaos = some c ∧ c.errors = some e := by
  obtain ⟨cfg, hcfg, herrors⟩ := Option.bind_eq_some_iff.mp he
  have hchaos : agent.chaos = some cfg := (Option.filter_eq_some_iff.mp hcfg).1
  rw [h] at hchaos
  obtain ⟨c, hc, rfl⟩ := Option.map_eq_some_iff.mp hchaos
  exact ⟨c, hc, herrors⟩

/-- An accepted definition does not fail from configuration: its scenarios' calls find their
tools, its patterns compile after any history of the matcher, and in every run of the injector
a fault is one of the connection or has an error status, and no delay is negative or over
sixty seconds. -/
theorem validated_runs [GoFloat F] (v : Checker Regexp) (depth : Nat) (d : AgentDefinition N F)
    (doc : Option Document) (h : v.validate depth d doc = some []) :
    (∀ (env : ToolEnv N F) (draw : Nat → ToolDraw), ∀ sc ∈ d.scenarios,
      (processToolCalls env draw sc.response.toolCalls d.tools).2 = none ∧
      ∀ call ∈ sc.response.toolCalls, ∃ tool ∈ d.tools, tool.name = call.name ∧
        ∀ one, processOne env one call (indexTools d.tools) = answer env one call tool) ∧
    (∀ (toLower : Bytes → Bytes) (calls : List (List (Scenario N) × Turn)), ∀ sc ∈ d.scenarios,
      ∀ rule, sc.rule = some rule → rule.contentRegex ≠ [] →
        ((ScenarioMatcher.after ⟨v.compile, toLower⟩ calls).compileRegex ⟨v.compile, toLower⟩
          rule.contentRegex).2.isSome) ∧
    ∀ (settings : Settings F) (acts : List (Act (Call F) (Choice F))) (agent : Agent F) (i : Nat),
      Runs d agent →
      (∀ err, ((chaos settings).run opened acts).calls[i]? = some (.before agent (.done (some err))) →
        (err.connection ≠ "" ∨ IsErrorStatus err.statusCode) ∧
        (err.timeout = true → 0 ≤ err.retryAfter ∧ err.retryAfter ≤ maxDelay)) ∧
      ∀ delay, ((chaos settings).run opened acts).calls[i]? = some (.after agent (some (some delay))) →
        0 ≤ delay ∧ delay ≤ maxDelay := by
  obtain ⟨hscenarios, hreferences, hchaos⟩ := Checker.passed h
  refine ⟨fun env draw sc hsc => ⟨?_, fun call hcall => ?_⟩, fun toLower calls sc hsc rule hrule hregex => ?_,
    fun settings acts agent i hruns => ⟨fun err hi => ?_, fun delay hi => ?_⟩⟩
  · exact processToolCalls_ok env draw fun tc htc => toolCall_defined hscenarios hreferences hsc htc
  · obtain ⟨tool, htool, hname, hlookup⟩ :=
      exists_lookup_indexTools (toolCall_defined hscenarios hreferences hsc hcall)
    refine ⟨tool, htool, hname, fun one => ?_⟩
    rw [processOne, hlookup]
  · obtain ⟨re, hre⟩ := contentRegex_compiles hscenarios hsc hrule hregex
    have hcached := (faithful_after ⟨v.compile, toLower⟩ calls).compileRegex rule.contentRegex
    rw [hcached.2]
    exact congrArg (fun compiled => compiled.toOption.isSome) hre
  · have hfault : Fault settings agent err := configured_run acts hi
    refine ⟨hfault.status, fun htimeout => hfault.delay htimeout fun e he => ?_⟩
    obtain ⟨c, hc, herrors⟩ := hruns.errors he
    exact errors_bounded hchaos hc herrors
  · obtain ⟨ch, l, rfl⟩ := configured_run acts hi
    exact millisecond_bounded (le_min (le_max_right _ _) (by decide)) (min_le_right _ _)

/-! ### A definition with every section -/

section Example

def sampleChecker : Checker Regexp where
  env := ⟨fun _ => ⟨[], false⟩, fun _ => none, id, (· == ·), fun _ => true⟩
  file := bytes "support.yaml"
  lineColOf _ := (0, 0)
  compile _ := .ok ⟨fun _ => none, []⟩
  parseTemplate _ := none
  shuffle := Shuffle.stored

def searchTool : ToolDefinition Nat Rat := ⟨bytes "search", [], [], false, 0⟩

def searchScenario : Scenario Nat where
  name := bytes "search"
  rule := some ⟨[], bytes "find", none, none⟩
  response := ⟨bytes "looking", [⟨bytes "search", [], []⟩], [], none⟩

def faults : ChaosConfig Rat where
  enabled := true
  latency := some ⟨"fixed", 10, 10, 0, 0⟩
  errors := some ⟨0, 0, [], true, 100, "", 1⟩
  rateLimit := none
  connection := some ⟨"reset", 1, 0⟩

def faultyDefinition : AgentDefinition Nat Rat where
  apiVersion := agentAPIVersion
  kind := agentKind
  name := bytes "search"
  protocol := bytes "ollama-chat"
  tools := [searchTool]
  scenarios := [searchScenario]
  streaming := none
  chaos := some ⟨faults, ""⟩
  strictTools := none

def faultyAgent : Agent Rat where
  tenantID := bytes "globex"
  name := bytes "search"
  chaos := some faults
  tenant_noNul := by decide +kernel
  name_noNul := by decide +kernel

def quiet : Settings Rat := ⟨none, fun _ _ => 0, fun _ => ""⟩

def drawing (i : Nat) : Act (Call Rat) (Choice Rat) := .step i ⟨0, 0, 0, 0⟩

def firstCall : List (Act (Call Rat) (Choice Rat)) := [.start (.before faultyAgent), drawing 0, drawing 0]

theorem validated_runs_faulty :
    (∀ (env : ToolEnv Nat Rat) (draw : Nat → ToolDraw),
      (processToolCalls env draw searchScenario.response.toolCalls [searchTool]).2 = none) ∧
    (newScenarioMatcher.compileRegex ⟨sampleChecker.compile, id⟩ (bytes "find")).2.isSome ∧
    (∃ err, ((chaos quiet).run opened firstCall).calls[0]? =
        some (.before faultyAgent (.done (some err))) ∧ IsErrorStatus err.statusCode ∧
      0 ≤ err.retryAfter ∧ err.retryAfter ≤ maxDelay) ∧
    ∃ delay, ((chaos quiet).run opened [.start (.after faultyAgent), drawing 0]).calls[0]? =
        some (.after faultyAgent (some (some delay))) ∧ 0 ≤ delay ∧ delay ≤ maxDelay := by
  obtain ⟨htools, hpatterns, hfaults⟩ :=
    validated_runs sampleChecker 1 faultyDefinition none (by decide +kernel)
  have hbefore := (hfaults quiet firstCall faultyAgent 0 rfl).1 _ rfl
  have hafter := (hfaults quiet [.start (.after faultyAgent), drawing 0] faultyAgent 0 rfl).2 _ rfl
  refine ⟨fun env draw => (htools env draw searchScenario (mem_singleton.mpr rfl)).1, ?_,
    ⟨_, rfl, ?_, hbefore.2 rfl⟩, _, rfl, hafter⟩
  · exact hpatterns id [] searchScenario (mem_singleton.mpr rfl) _ rfl (by decide +kernel)
  · exact hbefore.1.resolve_left (fun h => h rfl)

/-- The fault of a connection is returned with no status. -/
theorem accepted_reset_has_no_status :
    sampleChecker.validate 1 faultyDefinition none = some [] ∧ Runs faultyDefinition faultyAgent ∧
    ∃ err, ((chaos quiet).run opened
        (firstCall ++ [.start (.before faultyAgent), drawing 1, drawing 1, drawing 1, drawing 1])).calls[1]? =
        some (.before faultyAgent (.done (some err))) ∧ err.statusCode = 0 ∧
      ¬ IsErrorStatus err.statusCode :=
  ⟨by decide +kernel, rfl, ⟨0, "", 0, false, "reset"⟩, rfl, rfl, by decide⟩

end Example

end MockAgents.Engine
