import MockAgents.Engine.Chaos
import MockAgents.Engine.ToolLoop
import MockAgents.Lib.JsonValue
/-!
# Agent definitions

The types of a definition file: what the validator, the scenario matcher, the tool processor
and the fault injector read of it.  Decoded values are JSON values with numbers in `N`, floats
are in `F`.
-/

namespace MockAgents.Config

open Lib Lib.JsonValue Engine

structure MatchRule where
  contentContains : Bytes
  contentRegex : Bytes
  turnNumber : Option Int
  hasImage : Option Bool

structure ToolError where
  code : Bytes
  message : Bytes
deriving DecidableEq

/-- A response that is nil is `null`. -/
structure ToolResponseRule (N : Type) where
  argsMatch : Object N
  response : JsonValue N
  error : Option ToolError
  isDefault : Bool

structure ToolDefinition (N F : Type) where
  name : Bytes
  parameters : Object N
  responses : List (ToolResponseRule N)
  validate : Bool
  errorRate : F

/-- The label of a hallucination fixture. -/
structure HallucinationSpec where
  type : Bytes

structure ScenarioResponse (N : Type) where
  content : Bytes
  toolCalls : List (ToolCallSpec (Object N))
  refusal : Bytes
  hallucination : Option HallucinationSpec

structure Scenario (N : Type) where
  name : Bytes
  rule : Option MatchRule
  response : ScenarioResponse N

structure StreamingConfig (F : Type) where
  chunkSize : Int
  chunkDelayMs : Option Int
  ttftMs : Int
  tokensPerSec : F
  jitterMs : Int
  ttftP50Ms : Int
  ttftP95Ms : Int
  itlP50Ms : Int
  itlP95Ms : Int
  truncateAfterChunks : Int

/-- A chaos block as it is written; the injector reads no preset. -/
structure ChaosBlock (F : Type) extends ChaosConfig F where
  preset : String

structure StrictToolsConfig where
  level : Bytes

structure AgentDefinition (N F : Type) where
  apiVersion : Bytes
  kind : Bytes
  name : Bytes
  protocol : Bytes
  tools : List (ToolDefinition N F)
  scenarios : List (Scenario N)
  streaming : Option (StreamingConfig F)
  chaos : Option (ChaosBlock F)
  strictTools : Option StrictToolsConfig

end MockAgents.Config
