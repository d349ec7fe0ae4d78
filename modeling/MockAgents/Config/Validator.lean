import MockAgents.Config.Definition
import MockAgents.Config.StrictFields
/-!
# The validator of agent definitions

`validator.go`: every rule adds its errors to a list, and a definition is accepted when the
list stays empty.  The positions of fields in the document, the regexp and template packages
and the order of a loop over a map are parameters.
-/

namespace MockAgents.Config

open Lib Lib.Utf8 Lib.Strconv Lib.Maps Engine Realtime

/-- What a validation is run with.  `lineColOf` gives the position of a field in the document,
`compile` is `regexp.Compile` and `parseTemplate` the error of parsing a response template. -/
structure Checker (R : Type) where
  env : Env
  file : Bytes
  lineColOf : Bytes → Nat × Nat
  compile : Bytes → Except Bytes R
  parseTemplate : Bytes → Option Bytes
  shuffle : Shuffle

variable {R N F : Type}

/-! ## Errors -/

/-- `addError`. -/
def Checker.error (v : Checker R) (field message suggestion : Bytes) : ValidationError :=
  { file := v.file
    line := (v.lineColOf field).1
    column := (v.lineColOf field).2
    field, message, suggestion }

def broken (test : Bool) (e : ValidationError) : List ValidationError := if test then [e] else []

@[simp] theorem broken_eq_nil {test : Bool} {e : ValidationError} : broken test e = [] ↔ test = false := by
  cases test <;> simp [broken]

/-- `%q`. -/
def Checker.quoted (v : Checker R) (b : Bytes) : Bytes := bytes (quote v.env.printable b)

/-- `%s.%d`. -/
def indexed (path : Bytes) (i : Nat) : Bytes := path ++ bytes ("." ++ toString i)

def commaList (names : List String) : Bytes := bytes (", ".intercalate names)

/-! ## The head of the file -/

def agentAPIVersion : Bytes := bytes "mockagents/v1"

def agentKind : Bytes := bytes "Agent"

def validProtocols : List String :=
  ["openai-chat-completions", "anthropic-messages", "google-gemini", "ollama-chat", "bedrock-converse"]

def isLower (b : UInt8) : Bool := decide (97 ≤ b) && decide (b ≤ 122)

def isDigit (b : UInt8) : Bool := decide (48 ≤ b) && decide (b ≤ 57)

/-- `^[a-z0-9]+(-[a-z0-9]+)*$`. -/
def isMetadataName (name : Bytes) : Bool :=
  (name.splitOn 45).all fun part => !part.isEmpty && part.all fun b => isLower b || isDigit b

/-- `^[a-z][a-z0-9_]*$`. -/
def isToolName : Bytes → Bool
  | [] => false
  | b :: rest => isLower b && rest.all fun b => isLower b || isDigit b || decide (b = 95)

section
variable (v : Checker R) (d : AgentDefinition N F)

def validateHeader (field value accepted noun : Bytes) : List ValidationError :=
  if value = [] then
    [v.error field (bytes "required field missing") (bytes "Add " ++ field ++ bytes ": " ++ accepted)]
  else
    broken (decide (value ≠ accepted))
      (v.error field (bytes "unsupported " ++ noun ++ bytes " " ++ v.quoted value)
        (bytes "Use " ++ field ++ bytes ": " ++ accepted))

def validateAPIVersion : List ValidationError :=
  validateHeader v (bytes "apiVersion") d.apiVersion agentAPIVersion (bytes "version")

def validateKind : List ValidationError :=
  validateHeader v (bytes "kind") d.kind agentKind (bytes "kind")

def validateMetadata : List ValidationError :=
  let field := bytes "metadata.name"
  if d.name = [] then
    [v.error field (bytes "required field missing")
      (bytes "Add a kebab-case name, e.g. metadata.name: my-agent")]
  else
    broken (decide (63 < d.name.length))
      (v.error field (bytes ("name exceeds 63 characters (got " ++ toString d.name.length ++ ")"))
        (bytes "Shorten the agent name to 63 characters or fewer.")) ++
    broken (!isMetadataName d.name)
      (v.error field (bytes "invalid name " ++ v.quoted d.name ++ bytes ": must be lowercase kebab-case")
        (bytes "Use lowercase letters, numbers, and hyphens only (e.g. my-agent-1)."))

def validateProtocol : List ValidationError :=
  let field := bytes "spec.protocol"
  if d.protocol = [] then
    [v.error field (bytes "required field missing")
      (bytes "Set spec.protocol to one of: " ++ commaList validProtocols)]
  else
    broken (!validProtocols.any fun p => decide (d.protocol = bytes p))
      (v.error field (bytes "invalid protocol " ++ v.quoted d.protocol)
        (bytes "Must be one of: " ++ commaList validProtocols))

end

/-! ## Scenarios -/

def hallucinationTypes : List String :=
  ["fabricated_fact", "fabricated_citation", "ungrounded", "bad_tool_result", "other"]

section
variable (v : Checker R)

def validateMatchRule (rule : MatchRule) (field : Bytes) : List ValidationError :=
  broken (rule.turnNumber.any fun n => decide (n < 1))
    (v.error (field ++ bytes ".turn_number") (bytes "turn_number must be >= 1")
      (bytes "Conversation turns start at 1.")) ++
  broken (decide (rule.contentContains ≠ []) && decide (rule.contentRegex ≠ []))
    (v.error field (bytes "content_contains and content_regex are mutually exclusive")
      (bytes "Use only one of content_contains or content_regex per match rule.")) ++
  if rule.contentRegex = [] then []
  else
    match v.compile rule.contentRegex with
    | .ok _ => []
    | .error err =>
      [v.error (field ++ bytes ".content_regex") (bytes "invalid regex: " ++ err)
        (bytes "Fix the regular expression syntax.")]

def validateScenarioName (names : List Bytes) (name field : Bytes) : List ValidationError :=
  if name = [] then
    [v.error (field ++ bytes ".name") (bytes "scenario name is required")
      (bytes "Add a unique name for this scenario.")]
  else
    broken (names.contains name)
      (v.error (field ++ bytes ".name") (bytes "duplicate scenario name " ++ v.quoted name)
        (bytes "Each scenario must have a unique name."))

def validateTemplate (content field : Bytes) : List ValidationError :=
  if Strings.contains content (bytes "\x7b\x7b") then
    match v.parseTemplate content with
    | none => []
    | some err =>
      [v.error (field ++ bytes ".response.content") (bytes "invalid response template: " ++ err)
        (bytes "Close every \x7b\x7b action and use only the documented template functions.")]
  else []

def validateToolCallName (field : Bytes) (tc : ToolCallSpec (JsonValue.Object N)) (j : Nat) :
    List ValidationError :=
  broken (decide (tc.name = []))
    (v.error (indexed (field ++ bytes ".response.tool_calls") j ++ bytes ".name")
      (bytes "tool_call name is required") (bytes "Add the snake_case name of the tool to call."))

def validateScenario (names : List Bytes) (i : Nat) (sc : Scenario N) : List ValidationError :=
  let field := indexed (bytes "spec.behavior.scenarios") i
  validateScenarioName v names sc.name field ++
  broken (sc.response.content.isEmpty && sc.response.refusal.isEmpty && sc.response.toolCalls.isEmpty)
    (v.error (field ++ bytes ".response.content") (bytes "response content is required")
      (bytes "Add content text (or a refusal / tool_calls) for this scenario's response.")) ++
  validateTemplate v sc.response.content field ++
  sc.response.toolCalls.zipIdx.flatMap (fun tc => validateToolCallName v field tc.1 tc.2) ++
  (match sc.rule with
    | none => []
    | some rule => validateMatchRule v rule (field ++ bytes ".match")) ++
  match sc.response.hallucination with
  | none => []
  | some h =>
    broken (decide (h.type ≠ []) && !hallucinationTypes.any fun t => decide (h.type = bytes t))
      (v.error (field ++ bytes ".response.hallucination.type")
        (bytes "invalid hallucination type " ++ v.quoted h.type)
        (bytes "Use one of: " ++ commaList hallucinationTypes))

def validateScenarioList : Nat → List Bytes → List (Scenario N) → List ValidationError
  | _, _, [] => []
  | i, names, sc :: rest =>
    validateScenario v names i sc ++ validateScenarioList (i + 1) (sc.name :: names) rest

def validateScenarios (d : AgentDefinition N F) : List ValidationError :=
  if d.scenarios.isEmpty then
    [v.error (bytes "spec.behavior.scenarios") (bytes "at least one scenario is required")
      (bytes "Add a scenario with a name and response content.")]
  else validateScenarioList v 0 [] d.scenarios

end

/-! ## Tools -/

def maxToolNameLen : Nat := 64

section
variable (v : Checker R)

def validateJSONSchema (schema : JsonValue.Object N) (field : Bytes) : List ValidationError :=
  broken (!schema.isEmpty && (JsonValue.get schema "type").isNone)
    (v.error field (bytes "JSON Schema missing 'type' field")
      (bytes "Add a 'type' field to the parameters schema (e.g. type: object)."))

/-- The nil of an `any`. -/
def isNil : JsonValue N → Bool
  | .null => true
  | _ => false

def validateToolResponse (field : Bytes) (r : ToolResponseRule N) (i : Nat) : List ValidationError :=
  let f := indexed field i
  broken (isNil r.response && r.error.isNone)
    (v.error f (bytes "tool response rule has neither response nor error")
      (bytes "Give the rule a response value or an error \x7bcode, message\x7d.")) ++
  broken (!isNil r.response && r.error.isSome)
    (v.error f (bytes "tool response rule has both response and error")
      (bytes "A rule returns one or the other.")) ++
  broken (r.error.any fun e => e.code.isEmpty || e.message.isEmpty)
    (v.error (f ++ bytes ".error") (bytes "a simulated tool error needs both code and message") [])

variable [GoFloat F]

/-- The largest `float64`. -/
def maxFloat64 : Int := 2 ^ 1024 - 2 ^ 971

def isNaN (x : F) : Bool := !GoFloat.eq x x

def isInf (x : F) : Bool :=
  GoFloat.lt (GoFloat.ofInt maxFloat64) x || GoFloat.lt x (GoFloat.ofInt (-maxFloat64))

def validateTool (names : List Bytes) (i : Nat) (tool : ToolDefinition N F) : List ValidationError :=
  let field := indexed (bytes "spec.tools") i
  if tool.name = [] then
    [v.error (field ++ bytes ".name") (bytes "tool name is required")
      (bytes "Add a snake_case name for this tool.")]
  else
    broken (!isToolName tool.name)
      (v.error (field ++ bytes ".name")
        (bytes "invalid tool name " ++ v.quoted tool.name ++ bytes ": must be snake_case")
        (bytes "Use lowercase letters, numbers, and underscores (e.g. lookup_order).")) ++
    broken (names.contains tool.name)
      (v.error (field ++ bytes ".name") (bytes "duplicate tool name " ++ v.quoted tool.name)
        (bytes "Each tool must have a unique name within an agent.")) ++
    broken (decide (maxToolNameLen < tool.name.length))
      (v.error (field ++ bytes ".name")
        (bytes ("tool name is " ++ toString tool.name.length ++ " characters; the limit is " ++
          toString maxToolNameLen))
        (bytes "Provider APIs reject function names longer than 64 characters.")) ++
    validateJSONSchema v tool.parameters (field ++ bytes ".parameters") ++
    broken (isNaN tool.errorRate || isInf tool.errorRate ||
        GoFloat.lt tool.errorRate (GoFloat.ofInt 0) || GoFloat.lt (GoFloat.ofInt 1) tool.errorRate)
      (v.error (field ++ bytes ".error_rate") (bytes "error_rate must be finite and in [0.0, 1.0]") []) ++
    tool.responses.zipIdx.flatMap fun r => validateToolResponse v (field ++ bytes ".responses") r.1 r.2

def validateToolList : Nat → List Bytes → List (ToolDefinition N F) → List ValidationError
  | _, _, [] => []
  | i, names, tool :: rest =>
    validateTool v names i tool ++ validateToolList (i + 1) (tool.name :: names) rest

def validateTools (d : AgentDefinition N F) : List ValidationError := validateToolList v 0 [] d.tools

end

section
variable (v : Checker R)

def validateReference (tools : List (ToolDefinition N F)) (i : Nat) (tc : ToolCallSpec (JsonValue.Object N))
    (j : Nat) : List ValidationError :=
  broken (decide (tc.name ≠ []) && !tools.any fun tool => decide (tool.name = tc.name))
    (v.error
      (indexed (indexed (bytes "spec.behavior.scenarios") i ++ bytes ".response.tool_calls") j ++
        bytes ".name")
      (bytes "tool_call references undefined tool " ++ v.quoted tc.name)
      (bytes "Define tool " ++ v.quoted tc.name ++ bytes " in spec.tools or correct the reference."))

def validateCrossReferences (d : AgentDefinition N F) : List ValidationError :=
  d.scenarios.zipIdx.flatMap fun sc =>
    sc.1.response.toolCalls.zipIdx.flatMap fun tc => validateReference v d.tools sc.2 tc.1 tc.2

end

/-! ## Chaos -/

def maxChaosMs : Int := 60000

def latencyDistributions : List String := ["fixed", "uniform", "normal"]

/-- The keys of `chaosPresets`, in the order of `types.ChaosPresets`. -/
def chaosPresets : List String :=
  ["server-down", "rate-limited", "access-denied", "unauthorized", "flaky", "slow", "connection-reset"]

def connectionModeNames : List String :=
  ["empty", "garbage", "peer-reset", "random", "random-then-close", "reset"]

def outOfRange (ms : Int) : Bool := decide (ms < 0) || decide (maxChaosMs < ms)

section
variable (v : Checker R)

def validateMs (path name : String) (suggestion : Bytes) (ms : Int) : List ValidationError :=
  broken (outOfRange ms)
    (v.error (bytes (path ++ name)) (bytes (name ++ " must be between 0 and " ++ toString maxChaosMs))
      suggestion)

def validateLatency (l : ChaosLatencyConfig) : List ValidationError :=
  broken (decide (l.distribution ≠ "") && !latencyDistributions.contains l.distribution)
    (v.error (bytes "spec.behavior.chaos.latency.distribution")
      (bytes "unknown latency distribution " ++ v.quoted (bytes l.distribution))
      (bytes "Use one of: " ++ commaList latencyDistributions ++ bytes ".")) ++
  (v.shuffle.list [("min_ms", l.minMs), ("max_ms", l.maxMs), ("mean_ms", l.meanMs),
      ("stddev_ms", l.stddevMs)]).flatMap
    (fun e => validateMs v "spec.behavior.chaos.latency." e.1 [] e.2) ++
  broken (decide (0 < l.minMs) && decide (0 < l.maxMs) && decide (l.maxMs < l.minMs))
    (v.error (bytes "spec.behavior.chaos.latency.max_ms") (bytes "max_ms must be >= min_ms") [])

def validateFailFirst (path : String) (n : Int) : List ValidationError :=
  broken (decide (n < 0))
    (v.error (bytes (path ++ ".fail_first")) (bytes "fail_first must be >= 0") [])

def validateRateLimit (rl : ChaosRateLimitConfig) : List ValidationError :=
  broken (decide (rl.requests < 1))
    (v.error (bytes "spec.behavior.chaos.rate_limit.requests") (bytes "requests must be >= 1") []) ++
  broken (decide (rl.windowMs < 1))
    (v.error (bytes "spec.behavior.chaos.rate_limit.window_ms") (bytes "window_ms must be >= 1")
      (bytes "A zero window silently disables the limiter."))

def outOfStatus (code : Int) : Bool := decide (code < 400) || decide (599 < code)

variable [GoFloat F]

/-- `validRate`, which no NaN passes. -/
def validRate (r : F) : Bool := GoFloat.le (GoFloat.ofInt 0) r && GoFloat.le r (GoFloat.ofInt 1)

def validateRate (path : String) (r : F) : List ValidationError :=
  broken (!validRate r) (v.error (bytes (path ++ ".rate")) (bytes "rate must be in [0.0, 1.0]") [])

def validateErrors (e : ChaosErrorConfig F) : List ValidationError :=
  validateRate v "spec.behavior.chaos.errors" e.rate ++
  broken (decide (e.statusCode ≠ 0) && outOfStatus e.statusCode)
    (v.error (bytes "spec.behavior.chaos.errors.status_code")
      (bytes "status_code must be between 400 and 599")
      (bytes ("Injected errors are HTTP error statuses; " ++
        "net/http rejects codes outside 100-999 outright."))) ++
  e.statusCodes.zipIdx.flatMap (fun code =>
    broken (outOfStatus code.1)
      (v.error (indexed (bytes "spec.behavior.chaos.errors.status_codes") code.2)
        (bytes "status_codes entries must be between 400 and 599") [])) ++
  validateMs v "spec.behavior.chaos.errors." "timeout_ms"
    (bytes "The timeout fault really sleeps the request for this long.") e.timeoutMs ++
  validateFailFirst v "spec.behavior.chaos.errors" e.failFirst

def validateConnection (c : ChaosConnectionConfig F) : List ValidationError :=
  broken (!connectionModeNames.contains c.mode)
    (v.error (bytes "spec.behavior.chaos.connection.mode")
      (bytes "unknown connection mode " ++ v.quoted (bytes c.mode))
      (bytes "Use one of: " ++ commaList connectionModeNames ++ bytes ".")) ++
  validateRate v "spec.behavior.chaos.connection" c.rate ++
  validateFailFirst v "spec.behavior.chaos.connection" c.failFirst ++
  broken (GoFloat.eq c.rate (GoFloat.ofInt 0) && decide (c.failFirst = 0))
    (v.error (bytes "spec.behavior.chaos.connection")
      (bytes "connection fault has no trigger: set rate or fail_first")
      (bytes "Without a trigger the fault never fires."))

def ofSection {α : Type} (check : α → List ValidationError) (o : Option α) : List ValidationError :=
  o.elim [] check

def validateChaosBlock (c : ChaosBlock F) : List ValidationError :=
  broken (decide (c.preset ≠ "") && !chaosPresets.contains c.preset)
    (v.error (bytes "spec.behavior.chaos.preset")
      (bytes "unknown chaos preset " ++ v.quoted (bytes c.preset))
      (bytes "Use one of: " ++ commaList chaosPresets)) ++
  ofSection (validateLatency v) c.latency ++
  ofSection (validateErrors v) c.errors ++
  ofSection (validateRateLimit v) c.rateLimit ++
  ofSection (validateConnection v) c.connection

def validateChaos (d : AgentDefinition N F) : List ValidationError := ofSection (validateChaosBlock v) d.chaos

/-! ## Streaming and strict tools -/

/-- Percentiles come in pairs. -/
def checkPair (p50 p95 : Int) (p50Field p95Field : String) : List ValidationError :=
  if decide (0 < p50) ≠ decide (0 < p95) then
    let pair := if 0 < p95 then (p95Field, p50Field) else (p50Field, p95Field)
    [v.error (bytes ("spec.behavior.streaming." ++ pair.1))
      (bytes (pair.1 ++ " requires " ++ pair.2 ++ " to also be set"))
      (bytes ("Set both " ++ p50Field ++ " and " ++ p95Field ++
        " for distribution-based timing, or neither."))]
  else
    broken (decide (0 < p50) && decide (p95 < p50))
      (v.error (bytes ("spec.behavior.streaming." ++ p95Field))
        (bytes (p95Field ++ " (" ++ toString p95 ++ ") must be >= " ++ p50Field ++ " (" ++
          toString p50 ++ ")"))
        (bytes "The 95th percentile must be at least the median."))

def StreamingConfig.timings (s : StreamingConfig F) : List (String × Int) :=
  (s.chunkDelayMs.map (("chunk_delay_ms", ·))).toList ++
    [("itl_p50_ms", s.itlP50Ms), ("itl_p95_ms", s.itlP95Ms), ("jitter_ms", s.jitterMs),
      ("ttft_ms", s.ttftMs), ("ttft_p50_ms", s.ttftP50Ms), ("ttft_p95_ms", s.ttftP95Ms)]

def validateStreamingBlock (s : StreamingConfig F) : List ValidationError :=
  checkPair v s.ttftP50Ms s.ttftP95Ms "ttft_p50_ms" "ttft_p95_ms" ++
  checkPair v s.itlP50Ms s.itlP95Ms "itl_p50_ms" "itl_p95_ms" ++
  broken (decide (s.chunkSize < 0))
    (v.error (bytes "spec.behavior.streaming.chunk_size")
      (bytes "chunk_size must be >= 1 (omit it for the default)") []) ++
  s.timings.flatMap (fun e =>
    validateMs v "spec.behavior.streaming." e.1 (bytes "Streaming delays really sleep the request.") e.2) ++
  broken (isNaN s.tokensPerSec || isInf s.tokensPerSec || GoFloat.lt s.tokensPerSec (GoFloat.ofInt 0))
    (v.error (bytes "spec.behavior.streaming.tokens_per_sec")
      (bytes "tokens_per_sec must be a finite number >= 0") []) ++
  broken (decide (s.truncateAfterChunks < 0))
    (v.error (bytes "spec.behavior.streaming.truncate_after_chunks")
      (bytes "truncate_after_chunks must be >= 0") [])

def validateStreaming (d : AgentDefinition N F) : List ValidationError :=
  ofSection (validateStreamingBlock v) d.streaming

def strictToolLevels : List String := ["off", "warn", "strict"]

def validateStrictTools (d : AgentDefinition N F) : List ValidationError :=
  ofSection (fun st =>
    broken (decide (st.level ≠ []) && !strictToolLevels.any fun l => decide (st.level = bytes l))
      (v.error (bytes "spec.behavior.strict_tools.level") (bytes "unknown level " ++ v.quoted st.level)
        (bytes "Use one of: " ++ commaList strictToolLevels ++ bytes "."))) d.strictTools

/-! ## The whole -/

/-- `Validate`, for a definition with the document it was decoded from, if there is one.  The
unknown-field walk takes its bound; a definition is accepted when the result is `some []`. -/
def Checker.validate (depth : Nat) (d : AgentDefinition N F) (doc : Option Document) :
    Option (List ValidationError) :=
  (doc.elim (some []) fun doc => unknownFieldErrors v.env doc v.file depth (.pointer agentDefinitionType)).map
    fun unknown =>
      unknown ++ validateAPIVersion v d ++ validateKind v d ++ validateMetadata v d ++
        validateProtocol v d ++ validateScenarios v d ++ validateTools v d ++
        validateCrossReferences v d ++ validateChaos v d ++ validateStreaming v d ++
        validateStrictTools v d

end

end MockAgents.Config
