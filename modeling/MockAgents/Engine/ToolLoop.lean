import MockAgents.Lib.Strconv
/-!
# The tool loop

The part of `ProcessRequestContext` that decides which tool calls a response carries:
the guard that consumes calls the client has answered, `tool_choice` none, and the strict
tool choice of `strict.go`.  Argument maps are a type of their own, with `encoding/json`
on them as a parameter.  Scenario calls are not rendered: every generation hands out the
scenario's own maps, so that comparing a map with itself is equality also where it holds a
value that JSON does not have.
-/

namespace MockAgents.Engine

open Lib Lib.Utf8

/-- `map[string]any` and `encoding/json` on it. -/
structure ArgsCodec (A : Type) where
  nil : A
  empty : A
  len : A → Nat
  marshal : A → Option Bytes
  unmarshal : Bytes → Option A

/-- What holds of `encoding/json`: bytes that are not UTF-8 are read as U+FFFD, and a map it
has read survives being written and read again. -/
structure ArgsCodec.Lawful {A : Type} (k : ArgsCodec A) : Prop where
  len_nil : k.len k.nil = 0
  len_empty : k.len k.empty = 0
  unmarshal_nothing : k.unmarshal [] = none
  unmarshal_null : k.unmarshal (bytes "null") = some k.nil
  unmarshal_empty : k.unmarshal (bytes "\x7b\x7d") = some k.empty
  unmarshal_coerce : ∀ b, k.unmarshal (coerce b) = k.unmarshal b
  marshal_unmarshal : ∀ b m, k.unmarshal b = some m →
    ∃ b', k.marshal m = some b' ∧ k.unmarshal b' = some m

structure ToolCallSpec (A : Type) where
  name : Bytes
  arguments : A
  rawArguments : Bytes

structure EchoedToolCall (A : Type) where
  id : Bytes
  name : Bytes
  arguments : A
  rawArguments : Bytes
deriving DecidableEq

structure RequestMessage (A : Type) where
  role : Bytes
  content : Bytes
  imageCount : Nat
  isToolResult : Bool
  toolCalls : List (EchoedToolCall A)
  toolResultIDs : List Bytes
deriving DecidableEq

/-- The fields of a response that the tool loop and the Responses surface read;
`toolResults` holds the ids of the results. -/
structure Response (A : Type) where
  content : Bytes
  finishReason : Bytes
  toolCalls : List (ToolCallSpec A)
  toolResults : List Bytes

inductive StrictMode where
  | off
  | warn
  | enforce
deriving DecidableEq

structure ToolChoice where
  none : Bool
  required : Bool
  name : Bytes
  allowedNames : List Bytes
  parallelDisabled : Bool
deriving DecidableEq

section
variable {A : Type} (k : ArgsCodec A)

def ToolCallSpec.argumentsJSON (tc : ToolCallSpec A) : Bytes :=
  if tc.rawArguments ≠ [] then tc.rawArguments
  else if k.len tc.arguments = 0 then bytes "\x7b\x7d"
  else (k.marshal tc.arguments).getD (bytes "\x7b\x7d")

def echoToolCall (name rawArgs : Bytes) : EchoedToolCall A :=
  ⟨[], name, if rawArgs = [] then k.nil else (k.unmarshal rawArgs).getD k.nil, rawArgs⟩

/-! ## The convergence guard -/

def tailIsToolResult (messages : List (RequestMessage A)) : Bool :=
  match messages.reverse.find? fun m => m.role ≠ bytes "system" with
  | some m => m.isToolResult
  | none => false

def lastEchoedToolCalls (messages : List (RequestMessage A)) : List (EchoedToolCall A) :=
  match messages.reverse.find? fun m => !m.toolCalls.isEmpty with
  | some m => m.toolCalls
  | none => []

def normalizeArgs (m : A) : A :=
  match k.marshal m with
  | none => m
  | some b => (k.unmarshal b).getD m

variable [DecidableEq A]

def equalArgs (a b : A) : Bool :=
  (k.len a = 0 && k.len b = 0) || decide (normalizeArgs k a = normalizeArgs k b)

/-- One round of the loop of `sameToolCalls`. -/
def sameToolCall (g : ToolCallSpec A) (e : EchoedToolCall A) : Bool :=
  decide (g.name = e.name) &&
    if g.rawArguments ≠ [] then
      match k.unmarshal g.rawArguments with
      | none => decide (g.rawArguments = e.rawArguments)
      | some m => equalArgs k m e.arguments
    else equalArgs k g.arguments e.arguments

def sameToolCalls (gen : List (ToolCallSpec A)) (echoed : List (EchoedToolCall A)) : Bool :=
  !echoed.isEmpty && decide (gen.length = echoed.length) &&
    (gen.zip echoed).all fun e => sameToolCall k e.1 e.2

def guardCalls (mode : StrictMode) (tc : ToolChoice) (calls : List (ToolCallSpec A)) :
    List (ToolCallSpec A) :=
  if mode = .enforce ∧ tc.parallelDisabled ∧ !tc.none ∧ 1 < calls.length then calls.take 1
  else calls

def consumed (mode : StrictMode) (tc : ToolChoice) (messages : List (RequestMessage A))
    (calls : List (ToolCallSpec A)) : Bool :=
  decide (0 < (guardCalls mode tc calls).length) && tailIsToolResult messages &&
    sameToolCalls k (guardCalls mode tc calls) (lastEchoedToolCalls messages)

end

/-! ## The strict tool choice -/

/-- What the strict tool choice reads of the agent and the request. -/
structure ToolContext where
  agentTools : List Bytes
  agentProtocol : Bytes
  requestToolNames : List Bytes
  wireProtocol : Bytes

/-- What warn mode reports. -/
inductive StrictWarning where
  | forcedNotEmitted (name : Bytes)
  | nothingDeclared
  | noCallEmitted (name : Bytes)
  | outsideAllowed (emitted name : Bytes)
  | parallel (calls : Nat)

def StrictWarning.text (printable : Char → Bool) : StrictWarning → String
  | .forcedNotEmitted name => "tool_choice: forced tool " ++ Strconv.quote printable name ++
      " was not the emitted call (strict would synthesize it)"
  | .nothingDeclared => "tool_choice: required but no tools are declared to synthesize from"
  | .noCallEmitted name => "tool_choice: required but the scenario emitted no tool call " ++
      "(strict would synthesize " ++ Strconv.quote printable name ++ ")"
  | .outsideAllowed emitted name => "tool_choice: emitted call " ++
      Strconv.quote printable emitted ++ " is outside allowedFunctionNames " ++
      "(strict would synthesize " ++ Strconv.quote printable name ++ ")"
  | .parallel calls => "parallel: " ++ toString calls ++
      " tool calls emitted under a parallel-disabled request (strict caps to 1)"

section
variable {A : Type} (k : ArgsCodec A)

def firstToolName (tc : ToolChoice) (ctx : ToolContext) : Bytes :=
  (tc.allowedNames ++ ctx.requestToolNames ++ ctx.agentTools).headD []

def synthesize (resp : Response A) (name : Bytes) : Response A :=
  { resp with toolCalls := [⟨name, k.empty, []⟩], content := [] }

/-- The forcing of a call: the response, whether strict mode forced it, and what warn mode
says. -/
def forceToolCall (tc : ToolChoice) (mode : StrictMode) (ctx : ToolContext) (resp : Response A) :
    Response A × Bool × List StrictWarning :=
  let force := fun (name : Bytes) (warning : StrictWarning) =>
    if mode = .enforce then (synthesize k resp name, true, []) else (resp, false, [warning])
  match resp.toolCalls with
  | [] =>
    if tc.name ≠ [] then force tc.name (.forcedNotEmitted tc.name)
    else if firstToolName tc ctx = [] then (resp, false, [.nothingDeclared])
    else force (firstToolName tc ctx) (.noCallEmitted (firstToolName tc ctx))
  | call :: _ =>
    if tc.name ≠ [] ∧ call.name ≠ tc.name then force tc.name (.forcedNotEmitted tc.name)
    else if tc.allowedNames ≠ [] ∧ call.name ∉ tc.allowedNames then
      force (tc.allowedNames.headD []) (.outsideAllowed call.name (tc.allowedNames.headD []))
    else (resp, decide (mode = .enforce), [])

/-- The branch of `applyStrictToolChoice` for a forcing tool choice. -/
def applyRequired (tc : ToolChoice) (mode : StrictMode) (ctx : ToolContext) (resp : Response A) :
    Response A × List StrictWarning :=
  let (r, forced, warnings) := forceToolCall k tc mode ctx resp
  let protocol := if ctx.wireProtocol = [] then ctx.agentProtocol else ctx.wireProtocol
  if forced ∧ r.finishReason = [] ∧ (bytes "openai").isPrefixOf protocol then
    ({ r with finishReason := bytes "stop" }, warnings)
  else (r, warnings)

def capParallel (tc : ToolChoice) (mode : StrictMode) (resp : Response A) :
    Response A × List StrictWarning :=
  if tc.parallelDisabled ∧ 1 < resp.toolCalls.length then
    if mode = .enforce then ({ resp with toolCalls := resp.toolCalls.take 1 }, [])
    else (resp, [.parallel resp.toolCalls.length])
  else (resp, [])

def applyStrictToolChoice (tc : ToolChoice) (mode : StrictMode) (ctx : ToolContext)
    (resp : Response A) : Response A × List StrictWarning :=
  if tc.none ∨ mode = .off then (resp, [])
  else
    let (r, forcing) := if tc.required then applyRequired k tc mode ctx resp else (resp, [])
    let (r, capping) := capParallel tc mode r
    (r, forcing ++ capping)

variable [DecidableEq A]

/-- The tool calls of a generated response, from the guard to the strict tool choice. -/
def settleToolCalls (mode : StrictMode) (tc : ToolChoice) (ctx : ToolContext)
    (messages : List (RequestMessage A)) (resp : Response A) : Response A × List StrictWarning :=
  let guarded :=
    if consumed k mode tc messages resp.toolCalls then { resp with toolCalls := [] } else resp
  let allowed := if tc.none then { guarded with toolCalls := [] } else guarded
  if mode ≠ .off then applyStrictToolChoice k tc mode ctx allowed else (allowed, [])

end

end MockAgents.Engine
