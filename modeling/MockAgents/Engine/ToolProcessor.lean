import MockAgents.Config.Definition
/-!
# The tool processor

`tool_processor.go`: a tool call is resolved against the tools of the agent.  The parameter
validator, the comparison of scalars and the text of a rate are parameters; ids and random
draws are the environment's choice for each call.
-/

namespace MockAgents.Engine

open Lib Lib.Utf8 Lib.Strconv Lib.JsonValue Config Realtime

structure ToolCallResult (N : Type) where
  id : Bytes
  toolName : Bytes
  response : JsonValue N
  error : Option ToolError
  isError : Bool

/-- What `processOne` returns beside a result. -/
inductive ToolFailure where
  | notFound (name : Bytes)
  | parameterValidation
deriving DecidableEq

structure ToolEnv (N F : Type) where
  validateParameters : Object N → Object N → List Bytes
  equalScalar : JsonValue N → JsonValue N → Bool
  /-- a rate as a percentage, with `%.0f` -/
  percent : F → Bytes
  printable : Char → Bool

/-- The id of a call, and the number drawn below 10000 unless the source fails. -/
structure ToolDraw where
  id : Bytes
  sample : Option Nat

variable {N F : Type}

def matchArgs (env : ToolEnv N F) (argsMatch args : Object N) : Bool :=
  !argsMatch.isEmpty && argsMatch.all fun e => (args.lookup e.1).any (env.equalScalar e.2)

/-- The rule of `resolveToolResponse`: the first that matches, or the last default. -/
def resolveRule (env : ToolEnv N F) (args : Object N) :
    Option (ToolResponseRule N) → List (ToolResponseRule N) → Option (ToolResponseRule N)
  | default, [] => default
  | default, rule :: rest =>
    if rule.isDefault then resolveRule env args (some rule) rest
    else if matchArgs env rule.argsMatch args then some rule
    else resolveRule env args default rest

def resolveToolResponse (env : ToolEnv N F) (rules : List (ToolResponseRule N)) (args : Object N) :
    JsonValue N × Option ToolError :=
  match resolveRule env args none rules with
  | none => (.null, none)
  | some rule =>
    match rule.error with
    | some err => (.null, some err)
    | none => (rule.response, none)

def formatValidationErrors : List Bytes → Bytes
  | [err] => err
  | errs => bytes "multiple validation errors:" ++ errs.flatMap (bytes "\n  - " ++ ·)

/-- The fallback for a call that no rule answers. -/
def statusOK : JsonValue N := .object [(bytes "status", .string (bytes "ok"))]

def indexTools (tools : List (ToolDefinition N F)) : AList fun _ : Bytes => ToolDefinition N F :=
  tools.foldl (fun m tool => m.insert tool.name tool) ∅

section
variable [GoFloat F]

def shouldInjectError (draw : ToolDraw) (rate : F) : Bool :=
  if GoFloat.le rate (GoFloat.ofInt 0) then false
  else if GoFloat.le (GoFloat.ofInt 1) rate then true
  else draw.sample.any fun n => GoFloat.lt (GoFloat.div (GoFloat.ofInt n) (GoFloat.ofInt 10000)) rate

def answer (env : ToolEnv N F) (draw : ToolDraw) (call : ToolCallSpec (Object N))
    (tool : ToolDefinition N F) : ToolCallResult N × Option ToolFailure :=
  let failed (err : ToolError) : ToolCallResult N := ⟨draw.id, call.name, .null, some err, true⟩
  let valErrs := env.validateParameters tool.parameters call.arguments
  if tool.validate && !tool.parameters.isEmpty && !valErrs.isEmpty then
    (failed ⟨bytes "INVALID_PARAMETERS", formatValidationErrors valErrs⟩, some .parameterValidation)
  else if GoFloat.lt (GoFloat.ofInt 0) tool.errorRate && shouldInjectError draw tool.errorRate then
    (failed ⟨bytes "INJECTED_ERROR",
      bytes "chaos: random error injected at " ++ env.percent tool.errorRate ++ bytes "% rate"⟩, none)
  else
    match resolveToolResponse env tool.responses call.arguments with
    | (_, some err) => (failed err, none)
    | (.null, none) => (⟨draw.id, call.name, statusOK, none, false⟩, none)
    | (resp, none) => (⟨draw.id, call.name, resp, none, false⟩, none)

def processOne (env : ToolEnv N F) (draw : ToolDraw) (call : ToolCallSpec (Object N))
    (toolIndex : AList fun _ : Bytes => ToolDefinition N F) : ToolCallResult N × Option ToolFailure :=
  match toolIndex.lookup call.name with
  | none =>
    (⟨draw.id, call.name, .null, some ⟨bytes "TOOL_NOT_FOUND",
      bytes "tool " ++ bytes (quote env.printable call.name) ++ bytes " is not defined in the agent"⟩,
      true⟩, some (.notFound call.name))
  | some tool => answer env draw call tool

/-- `ProcessToolCalls`: the results, and the first failure that is not of parameter
validation. -/
def processToolCalls (env : ToolEnv N F) (draw : Nat → ToolDraw)
    (toolCalls : List (ToolCallSpec (Object N))) (tools : List (ToolDefinition N F)) :
    List (ToolCallResult N) × Option ToolFailure :=
  let processed := toolCalls.zipIdx.map fun call => processOne env (draw call.2) call.1 (indexTools tools)
  (processed.map (·.1),
    processed.findSome? fun r => r.2.filter fun failure => decide (failure ≠ .parameterValidation))

/-! ## The two paths of `ProcessToolCalls` -/

def ToolFailure.fatal (err : Option ToolFailure) : Option ToolFailure :=
  err.filter fun failure => decide (failure ≠ .parameterValidation)

def zeroResult : ToolCallResult N := ⟨[], [], .null, none, false⟩

/-- The loop for one or two calls, with the first error so far. -/
def processInline (env : ToolEnv N F) (draw : Nat → ToolDraw)
    (toolCalls : List (ToolCallSpec (Object N))) (tools : List (ToolDefinition N F)) :
    List (ToolCallResult N) × Option ToolFailure :=
  toolCalls.zipIdx.foldl (fun out call =>
    let r := processOne env (draw call.2) call.1 (indexTools tools)
    (out.1.set call.2 r.1, if out.2 = none then ToolFailure.fatal r.2 else out.2))
    (List.replicate toolCalls.length zeroResult, none)

structure Slices (N : Type) where
  results : List (ToolCallResult N)
  errs : List (Option ToolFailure)

/-- Where the goroutine of a call stands: before its write to `results`, and to `errs`. -/
inductive Goroutine (N : Type) where
  | process (idx : Nat) (call : ToolCallSpec (Object N))
  | report (idx : Nat) (err : Option ToolFailure)
  | done

/-- The goroutines of the concurrent path; none is started after the loop. -/
def goroutines (env : ToolEnv N F) (draw : Nat → ToolDraw) (tools : List (ToolDefinition N F)) :
    System (Slices N) (Goroutine N) Empty Unit where
  start := Empty.elim
  next _ s
    | .process idx call =>
      let r := processOne env (draw idx) call (indexTools tools)
      ({ s with results := s.results.set idx r.1 }, .report idx r.2)
    | .report idx err => ({ s with errs := s.errs.set idx err }, .done)
    | .done => (s, .done)

/-- What the loop starts; a goroutine may move before the next one is there. -/
def spawned (toolCalls : List (ToolCallSpec (Object N))) : Pool (Slices N) (Goroutine N) :=
  ⟨⟨List.replicate toolCalls.length zeroResult, List.replicate toolCalls.length none⟩,
    toolCalls.zipIdx.map fun call => .process call.2 call.1⟩

/-- What is returned after `Wait`. -/
def Slices.collect (s : Slices N) : List (ToolCallResult N) × Option ToolFailure :=
  (s.results, s.errs.findSome? ToolFailure.fatal)

end

end MockAgents.Engine
