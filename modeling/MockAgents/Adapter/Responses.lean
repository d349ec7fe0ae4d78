import MockAgents.Adapter.OpenAI
/-!
# The Responses surface

How `responses.go` and `conversations.go` turn input items into engine messages, keep a
turn in a conversation or behind a response id, and lower what they kept again.  The
mapping of an item to a message is one function for inline input and for replayed items.
-/

namespace MockAgents.Adapter

open Lib Lib.Utf8 Engine

/-- One element of the `input` array. -/
structure ResponsesInputItem where
  type : Bytes
  role : Bytes
  content : Bytes
  callID : Bytes
  output : Bytes
  name : Bytes
  arguments : Bytes

structure ConversationItem where
  id : Bytes
  type : Bytes
  object : Bytes
  createdAt : Int
  role : Bytes
  content : Bytes
  status : Bytes
  callID : Bytes
  name : Bytes
  arguments : Bytes
  output : Bytes

/-- What the surface uses of `encoding/json` and `fmt`. -/
structure ItemCodec (N : Type) where
  decode : Bytes → Option (JsonValue N)
  decodeString : Bytes → Option Bytes
  decodeItems : Bytes → Option (List ResponsesInputItem)
  encodeString : Bytes → Bytes
  sprint : JsonValue N → Bytes

/-- A written string reads back with U+FFFD in place of what is not UTF-8. -/
structure ItemCodec.Lawful {N : Type} (c : ItemCodec N) : Prop where
  encodeString_ne_nil : ∀ s, c.encodeString s ≠ []
  decode_encodeString : ∀ s, c.decode (c.encodeString s) = some (.string (coerce s))

section
variable {N A : Type} (c : ItemCodec N) (k : ArgsCodec A)

/-! ## Items to messages -/

def countResponsesImages : JsonValue N → Nat
  | .array parts => parts.countP (isTyped "input_image")
  | _ => 0

def decodeContent (raw : Bytes) : JsonValue N :=
  if raw = [] then .string [] else (c.decode raw).getD (.string [])

def rawToString (raw : Bytes) : Bytes :=
  if raw = [] then []
  else match c.decodeString raw with
    | some s => s
    | none => extractStringContent c.sprint (decodeContent c raw)

def responsesItemToMessage (itemType role content output name arguments callID : Bytes) :
    Option (RequestMessage A) :=
  if itemType = bytes "function_call_output" then
    some ⟨bytes "tool", rawToString c output, 0, true, [], if callID = [] then [] else [callID]⟩
  else if itemType = bytes "function_call" then
    let echoed := { echoToolCall k name arguments with id := callID }
    some ⟨bytes "assistant", [], 0, false, [echoed], []⟩
  else if itemType = [] ∨ itemType = bytes "message" then
    let parts := decodeContent c content
    some ⟨if role = [] then bytes "user" else role, extractStringContent c.sprint parts,
      countResponsesImages parts, false, [], []⟩
  else none

def ResponsesInputItem.message (it : ResponsesInputItem) : Option (RequestMessage A) :=
  responsesItemToMessage c k it.type it.role it.content it.output it.name it.arguments it.callID

def ConversationItem.message (it : ConversationItem) : Option (RequestMessage A) :=
  responsesItemToMessage c k it.type it.role it.content it.output it.name it.arguments it.callID

def parseResponsesInput (raw : Bytes) : Except String (List (RequestMessage A)) :=
  if raw = [] then .ok []
  else match c.decodeString raw with
    | some s => .ok (if s = [] then [] else [⟨bytes "user", s, 0, false, [], []⟩])
    | none =>
      match c.decodeItems raw with
      | none => .error "input must be a string or an array of input items"
      | some items => .ok (items.filterMap (ResponsesInputItem.message c k))

def conversationItemsToMessages (items : List ConversationItem) : List (RequestMessage A) :=
  items.filterMap (ConversationItem.message c k)

/-! ## The items of a conversation -/

/-- What one call of `generateID` and one reading of the clock give. -/
structure Stamp where
  id : Bytes
  now : Int

def itemIDPrefix (itemType : Bytes) : Bytes :=
  if itemType = bytes "function_call" then bytes "fc_"
  else if itemType = bytes "function_call_output" then bytes "fco_"
  else bytes "msg_"

def normalizeItem (stamp : Stamp) (it : ConversationItem) : ConversationItem :=
  let type := if it.type = [] then bytes "message" else it.type
  { it with
    type := type
    id := if it.id = [] then itemIDPrefix type ++ stamp.id else it.id
    object := bytes "conversation.item"
    createdAt := if it.createdAt = 0 then stamp.now else it.createdAt
    role := if type = bytes "message" ∧ it.role = [] then bytes "user" else it.role
    status := if it.status = [] then bytes "completed" else it.status }

def userMessageItem (stamp : Stamp) (role content : Bytes) : ConversationItem :=
  normalizeItem stamp
    ⟨[], bytes "message", [], 0, role, c.encodeString content, [], [], [], [], []⟩

def functionCallItem (stamp : Stamp) (toolResults : List Bytes) (i : Nat) (tc : ToolCallSpec A) :
    ConversationItem :=
  normalizeItem stamp
    ⟨[], bytes "function_call", [], 0, [], [], [], toolResults.getD i [], tc.name,
      tc.argumentsJSON k, []⟩

def assistantItemsFromResponse (stamps : Nat → Stamp) (resp : Response A) :
    List ConversationItem :=
  (if resp.content = [] then []
    else [userMessageItem c (stamps 0) (bytes "assistant") resp.content]) ++
    resp.toolCalls.mapIdx fun i tc => functionCallItem k (stamps (i + 1)) resp.toolResults i tc

def maxConversationItems : Nat := 4096

structure Conversation where
  items : List ConversationItem
  turns : Nat

def Conversation.messages (conv : Conversation) : List (RequestMessage A) :=
  conversationItemsToMessages c k conv.items

def Conversation.appendItems (conv : Conversation) (stamps : Nat → Stamp)
    (items : List ConversationItem) : Conversation :=
  let all := conv.items ++ items.mapIdx fun i it => normalizeItem (stamps i) it
  { conv with items := all.drop (all.length - maxConversationItems) }

def Conversation.addTurn (conv : Conversation) : Conversation :=
  { conv with turns := conv.turns + 1 }

/-! ## A turn -/

/-- A request on a conversation: its input, its instructions, the stamps drawn while it is
served and what the engine made of it. -/
structure Turn (A : Type) where
  input : Bytes
  instructions : Bytes
  stamps : Nat → Stamp
  stampsAgain : Nat → Stamp
  outcome : Option (Response A)

def instructionMessages (instructions : Bytes) : List (RequestMessage A) :=
  if instructions = [] then [] else [⟨bytes "system", instructions, 0, false, [], []⟩]

/-- The input messages and the response of a turn that succeeds after the given history. -/
def Turn.exchange (t : Turn A) (history : List (RequestMessage A)) :
    Option (List (RequestMessage A) × Response A) :=
  match parseResponsesInput c k t.input with
  | .error _ => none
  | .ok input =>
    if instructionMessages t.instructions ++ history ++ input = [] then none
    else t.outcome.map (input, ·)

def turnItems (stamps : Nat → Stamp) (input : List (RequestMessage A)) (resp : Response A) :
    List ConversationItem :=
  (input.mapIdx fun i m => userMessageItem c (stamps i) m.role m.content) ++
    assistantItemsFromResponse c k (fun i => stamps (input.length + i)) resp

/-- The conversation after a turn; one that fails leaves it as it was. -/
def Conversation.serve (conv : Conversation) (t : Turn A) : Conversation :=
  match t.exchange c k (conv.messages c k) with
  | none => conv
  | some (input, resp) =>
    (conv.appendItems t.stampsAgain (turnItems c k t.stamps input resp)).addTurn

def Conversation.run (conv : Conversation) (turns : List (Turn A)) : Conversation :=
  turns.foldl (Conversation.serve c k) conv

/-! ## A response -/

/-- A function call of the output; `generated` are the ids drawn for calls without one. -/
def outputFunctionCall (generated : Nat → Bytes) (resp : Response A) (i : Nat)
    (tc : ToolCallSpec A) : ResponsesInputItem where
  type := bytes "function_call"
  role := []
  content := []
  callID :=
    if resp.toolResults.getD i [] = [] then bytes "call_" ++ generated i
    else resp.toolResults.getD i []
  output := []
  name := tc.name
  arguments := tc.argumentsJSON k

/-- The function calls of `buildResponsesOutput`, in the shape of input items. -/
def outputFunctionCalls (generated : Nat → Bytes) (resp : Response A) : List ResponsesInputItem :=
  resp.toolCalls.mapIdx (outputFunctionCall k generated resp)

def storedMessages (messages : List (RequestMessage A)) (resp : Response A) :
    List (RequestMessage A) :=
  messages ++
    (if resp.content = [] then [] else [⟨bytes "assistant", resp.content, 0, false, [], []⟩]) ++
    if resp.toolCalls = [] then []
    else [⟨bytes "assistant", [], 0, false, resp.toolCalls.mapIdx fun i tc =>
        ⟨resp.toolResults.getD i [], tc.name, tc.arguments, tc.rawArguments⟩, []⟩]

def priorMessages (stored : List (RequestMessage A)) : List (RequestMessage A) :=
  stored.filter fun m => m.role ≠ bytes "system"

end

end MockAgents.Adapter
