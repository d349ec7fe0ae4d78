import Mathlib
import MockAgents.Engine.ToolLoop
import MockAgents.Lib.JsonValue
import MockAgents.Lib.Strings
/-!
# The Chat Completions surface

How `openai.go` flattens the messages of a request, and the tool calls it puts on the wire.
Rendering a value with `fmt.Sprintf` is a parameter.
-/

namespace MockAgents.Adapter

open Lib Lib.Utf8 Engine

structure OpenAIToolCall where
  id : Bytes
  name : Bytes
  arguments : Bytes

structure OpenAIMessage (N : Type) where
  role : Bytes
  content : JsonValue N
  toolCalls : List OpenAIToolCall
  toolCallID : Bytes

section
variable {N A : Type} (sprint : JsonValue N → Bytes) (k : ArgsCodec A)

def partString (key : String) : JsonValue N → Option Bytes
  | .object m =>
    match JsonValue.get m key with
    | some (.string t) => some t
    | _ => none
  | _ => none

def isTyped (type : String) (part : JsonValue N) : Bool :=
  decide (partString "type" part = some (bytes type))

def extractStringContent : JsonValue N → Bytes
  | .string s => s
  | .array parts => Strings.join (parts.filterMap (partString "text")) (bytes " ")
  | .null => []
  | v => sprint v

def extractStringContentWithImages : JsonValue N → Bytes × Nat
  | .array parts =>
    (Strings.join ((parts.filter (isTyped "text")).filterMap (partString "text")) (bytes " "),
      parts.countP (isTyped "image_url"))
  | content => (extractStringContent sprint content, 0)

def convertOpenAIMessage (m : OpenAIMessage N) : RequestMessage A :=
  let content := extractStringContentWithImages sprint m.content
  ⟨m.role, content.1, content.2, decide (m.role = bytes "tool"),
    m.toolCalls.map fun tc => { echoToolCall k tc.name tc.arguments with id := tc.id },
    if m.role = bytes "tool" ∧ m.toolCallID ≠ [] then [m.toolCallID] else []⟩

def convertOpenAIMessages (msgs : List (OpenAIMessage N)) : List (RequestMessage A) × Nat :=
  (msgs.map (convertOpenAIMessage sprint k),
    (msgs.map fun m => (extractStringContentWithImages sprint m.content).2).sum)

/-- The tool calls of `formatOpenAIResponse`. -/
def formatOpenAIToolCalls (resp : Response A) : List OpenAIToolCall :=
  resp.toolCalls.mapIdx fun i tc =>
    ⟨if i < resp.toolResults.length then resp.toolResults.getD i []
      else bytes ("call_" ++ toString i), tc.name, tc.argumentsJSON k⟩

end

end MockAgents.Adapter
