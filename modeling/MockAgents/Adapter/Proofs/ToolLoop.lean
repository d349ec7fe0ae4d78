import MockAgents.Adapter.Proofs.Replay
import MockAgents.Engine.Proofs.ToolLoop
/-!
# The tool loop over a history route

A client asks, gets tool calls, answers all of them and sends the turn again.  The calls come
back to the engine over one of four routes: as the tool calls of one chat message, as input
items, behind a response id, or through a conversation.  Each route has its own condition for
the guard to recognise the calls; a route that gives every call a message of its own loses all
but the last.
-/

namespace MockAgents.Adapter

open Lib Lib.Utf8 Engine List OpenAIToolCall

section
variable {N A : Type} (c : ItemCodec N) (k : ArgsCodec A)

/-! ## The client -/

/-- What the client adds, and the ids the response gets on the way to it. -/
structure Client (N : Type) where
  toolResults : List Bytes
  generated : Nat → Bytes
  text : JsonValue N
  textItems : List ResponsesInputItem
  answer : Nat → JsonValue N
  output : Nat → Bytes

def OpenAIToolCall.wired (call : OpenAIToolCall) : OpenAIToolCall :=
  ⟨coerce call.id, coerce call.name, coerce call.arguments⟩

def ResponsesInputItem.wired (it : ResponsesInputItem) : ResponsesInputItem :=
  { it with callID := coerce it.callID, name := coerce it.name, arguments := coerce it.arguments }

/-- The chat messages that answer a response: the assistant message and a result per call. -/
def chatReply (client : Client N) (resp : Response A) : List (OpenAIMessage N) :=
  let calls := (formatOpenAIToolCalls k resp).map OpenAIToolCall.wired
  ⟨bytes "assistant", client.text, calls, []⟩ ::
    calls.mapIdx fun i call => ⟨bytes "tool", client.answer i, [], call.id⟩

def functionCallOutput (output callID : Bytes) : ResponsesInputItem :=
  ⟨bytes "function_call_output", [], [], callID, output, [], []⟩

def seenCalls (client : Client N) (resp : Response A) : List ResponsesInputItem :=
  (outputFunctionCalls k client.generated resp).map ResponsesInputItem.wired

def answerItems (client : Client N) (resp : Response A) : List ResponsesInputItem :=
  (seenCalls k client resp).mapIdx fun i call => functionCallOutput (client.output i) call.callID

def inputMessages (items : List ResponsesInputItem) : List (RequestMessage A) :=
  items.filterMap (ResponsesInputItem.message c k)

/-- How the history of a request reaches the engine. -/
inductive Route (N A : Type) where
  | chat (history : List (OpenAIMessage N))
  | items (instructions : Bytes) (history : List ResponsesInputItem)
  | previousResponse (messages : List (RequestMessage A)) (instructions : Bytes)
  | conversation (conv : Conversation) (instructions : Bytes) (input : List (RequestMessage A))
      (stamps stampsAgain : Nat → Stamp) (instructionsAgain : Bytes)

def Route.first : Route N A → List (RequestMessage A)
  | .chat history => (convertOpenAIMessages c.sprint k history).1
  | .items instructions history => instructionMessages instructions ++ inputMessages c k history
  | .previousResponse messages _ => messages
  | .conversation conv instructions input _ _ _ =>
    instructionMessages instructions ++ conv.messages c k ++ input

def Route.second (client : Client N) (resp : Response A) : Route N A → List (RequestMessage A)
  | .chat history => (convertOpenAIMessages c.sprint k (history ++ chatReply k client resp)).1
  | .items instructions history =>
    instructionMessages instructions ++ inputMessages c k
      (history ++ client.textItems ++ seenCalls k client resp ++ answerItems k client resp)
  | .previousResponse messages instructions =>
    instructionMessages instructions ++ priorMessages (storedMessages messages resp) ++
      inputMessages c k (answerItems k client resp)
  | .conversation conv _ input stamps stampsAgain instructions =>
    instructionMessages instructions ++
      (conv.appendItems stampsAgain (turnItems c k stamps input resp)).addTurn.messages c k ++
      inputMessages c k (answerItems k client resp)

variable [DecidableEq A]
variable {m : RequestMessage A} {resp : Response A}

/-- The calls that come back recognisably over a route. -/
def Route.Carries (calls : List (ToolCallSpec A)) : Route N A → Prop
  | .chat _ => ∀ g ∈ calls, Readable k g ∧ WireSafe k g
  | .items _ _ => calls.length ≤ 1 ∧ ∀ g ∈ calls, Readable k g ∧ WireSafe k g
  | .previousResponse _ _ => ∀ g ∈ calls, StoredAsSent k g
  | .conversation .. => calls.length ≤ 1 ∧ ∀ g ∈ calls, Readable k g

/-! ## Answers -/

def Answers (results : List (RequestMessage A)) : Prop :=
  results ≠ [] ∧
    ∀ m ∈ results, m.isToolResult = true ∧ m.role ≠ bytes "system" ∧ m.toolCalls = []

/-- After answers the guard compares with the calls of the message before them. -/
theorem Answers.consumed_iff {results : List (RequestMessage A)} (h : Answers results)
    (before : List (RequestMessage A)) (hm : m.toolCalls ≠ [])
    (mode : StrictMode) (tc : ToolChoice) {calls : List (ToolCallSpec A)} (hne : calls ≠ []) :
    consumed k mode tc (before ++ [m] ++ results) calls = true ↔
      sameToolCalls k (guardCalls mode tc calls) m.toolCalls = true := by
  have htail : tailIsToolResult (before ++ [m] ++ results) = true :=
    tailIsToolResult_append _ h.1 fun r hr => ⟨(h.2 r hr).1, (h.2 r hr).2.1⟩
  have hlast := lastEchoedToolCalls_append before hm fun r hr => (h.2 r hr).2.2
  have hguard : 0 < (guardCalls mode tc calls).length :=
    length_pos_iff.mpr ((guardCalls_eq_nil_iff mode tc calls).not.mpr hne)
  rw [consumed, htail, hlast]
  simp [hguard]

theorem tool_ne_system : bytes "tool" ≠ bytes "system" := by decide

omit [DecidableEq A] in
theorem answers_answerItems (client : Client N) (hne : resp.toolCalls ≠ []) :
    Answers (inputMessages c k (answerItems k client resp)) := by
  have hitem : ∀ it ∈ answerItems k client resp,
      ∃ output callID, it = functionCallOutput output callID := by
    intro it hit
    obtain ⟨i, hi, rfl⟩ := mem_mapIdx.mp hit
    exact ⟨_, _, rfl⟩
  have hitems : answerItems k client resp ≠ [] := by
    simpa [answerItems, seenCalls, outputFunctionCalls] using hne
  constructor
  · obtain ⟨it, items, hcons⟩ := exists_cons_of_ne_nil hitems
    obtain ⟨output, callID, rfl⟩ := hitem it (by simp [hcons])
    rw [inputMessages, hcons]
    exact cons_ne_nil _ _
  · intro m hm
    obtain ⟨it, hit, hmessage⟩ := mem_filterMap.mp hm
    obtain ⟨output, callID, rfl⟩ := hitem it hit
    cases hmessage
    exact ⟨rfl, tool_ne_system, rfl⟩

omit [DecidableEq A] in
theorem answers_chatReply (client : Client N) (hne : resp.toolCalls ≠ []) :
    Answers ((chatReply k client resp).tail.map (convertOpenAIMessage (A := A) c.sprint k)) := by
  constructor
  · simpa [chatReply, formatOpenAIToolCalls] using hne
  · intro m hm
    obtain ⟨message, hmessage, rfl⟩ := mem_map.mp hm
    obtain ⟨i, hi, rfl⟩ := mem_mapIdx.mp hmessage
    exact ⟨rfl, tool_ne_system, rfl⟩

/-! ## The routes -/

/-- The calls stand in one message before the answers, and are recognised there exactly when
the condition holds. -/
def ComeBack (messages : List (RequestMessage A)) (calls : List (ToolCallSpec A)) (P : Prop) :
    Prop :=
  ∃ before m results, Answers results ∧ m.toolCalls ≠ [] ∧ messages = before ++ [m] ++ results ∧
    (sameToolCalls k calls m.toolCalls = true ↔ P)

/-- One chat message brings all calls back. -/
theorem comeBack_chat {k : ArgsCodec A} (hk : k.Lawful) (history : List (OpenAIMessage N))
    (client : Client N) (hne : resp.toolCalls ≠ []) :
    ComeBack k ((Route.chat history).second c k client resp) resp.toolCalls
      (∀ g ∈ resp.toolCalls, Readable k g ∧ WireSafe k g) := by
  refine ⟨history.map (convertOpenAIMessage c.sprint k),
    convertOpenAIMessage c.sprint k ⟨bytes "assistant", client.text,
      (formatOpenAIToolCalls k resp).map wired, []⟩, _,
    answers_chatReply c k client hne, ?_, ?_, ?_⟩
  · simpa [convertOpenAIMessage, formatOpenAIToolCalls] using hne
  · simp [Route.second, convertOpenAIMessages, chatReply]
  · have hcalls : (convertOpenAIMessage c.sprint k ⟨bytes "assistant", client.text,
        (formatOpenAIToolCalls k resp).map wired, []⟩).toolCalls =
        resp.toolCalls.mapIdx fun i g =>
          { echoToolCall k (coerce g.name) (coerce (g.argumentsJSON k)) with
            id := coerce (if i < resp.toolResults.length then resp.toolResults.getD i []
              else bytes ("call_" ++ toString i)) } :=
      ext_getElem (by simp [convertOpenAIMessage, formatOpenAIToolCalls])
        (by simp [convertOpenAIMessage, formatOpenAIToolCalls, wired])
    rw [hcalls]
    exact sameToolCalls_mapIdx_iff k hne _ fun i g => sameToolCall_wire_iff hk g _

def seenMessage (generated : Nat → Bytes) (resp : Response A) (i : Nat) (g : ToolCallSpec A) :
    RequestMessage A :=
  ⟨bytes "assistant", [], 0, false,
    [{ echoToolCall k (coerce g.name) (coerce (g.argumentsJSON k)) with
      id := coerce (outputFunctionCall k generated resp i g).callID }], []⟩

omit [DecidableEq A] in
theorem outputFunctionCall_message (generated : Nat → Bytes) (resp : Response A) (i : Nat)
    (g : ToolCallSpec A) :
    ((outputFunctionCall k generated resp i g).wired).message c k =
      some (seenMessage k generated resp i g) :=
  responsesItemToMessage_call c k _ _ _ _ _ _

/-- Input items bring each call back in a message of its own. -/
theorem comeBack_items {k : ArgsCodec A} (hk : k.Lawful) (instructions : Bytes)
    (history : List ResponsesInputItem) (client : Client N) (hne : resp.toolCalls ≠ []) :
    ComeBack k ((Route.items instructions history).second c k client resp) resp.toolCalls
      (resp.toolCalls.length ≤ 1 ∧ ∀ g ∈ resp.toolCalls, Readable k g ∧ WireSafe k g) := by
  obtain ⟨init, last, hlast⟩ := (eq_nil_or_concat' resp.toolCalls).resolve_left hne
  obtain ⟨seen, hseen⟩ : ∃ seen, seenCalls k client resp =
      seen ++ [(outputFunctionCall k client.generated resp init.length last).wired] := by
    rw [seenCalls, outputFunctionCalls, hlast, mapIdx_concat, map_append]
    exact ⟨_, rfl⟩
  have hmessage := outputFunctionCall_message c k client.generated resp init.length last
  refine ⟨instructionMessages instructions ++
    inputMessages c k (history ++ client.textItems ++ seen),
    seenMessage k client.generated resp init.length last, _,
    answers_answerItems c k client hne, cons_ne_nil _ _, ?_, ?_⟩
  · simp only [Route.second, hseen, inputMessages, filterMap_append,
      filterMap_cons_some hmessage, filterMap_nil, append_assoc]
  · rw [hlast]
    exact sameToolCalls_last_iff k (sameToolCall_wire_iff hk last _)

/-- A response id brings all calls back, with their arguments in place of the text sent. -/
theorem comeBack_previousResponse (messages : List (RequestMessage A)) (instructions : Bytes)
    (client : Client N) (hne : resp.toolCalls ≠ []) :
    ComeBack k ((Route.previousResponse messages instructions).second c k client resp)
      resp.toolCalls (∀ g ∈ resp.toolCalls, StoredAsSent k g) := by
  let text : List (RequestMessage A) :=
    if resp.content = [] then [] else [⟨bytes "assistant", resp.content, 0, false, [], []⟩]
  refine ⟨instructionMessages instructions ++ priorMessages (messages ++ text),
    ⟨bytes "assistant", [], 0, false, resp.toolCalls.mapIdx fun i tc =>
      ⟨resp.toolResults.getD i [], tc.name, tc.arguments, tc.rawArguments⟩, []⟩, _,
    answers_answerItems c k client hne, ?_, ?_, ?_⟩
  · simpa using hne
  · have hkept : bytes "assistant" ≠ bytes "system" := by decide
    simp [Route.second, storedMessages, priorMessages, hne, text, hkept]
  · refine sameToolCalls_mapIdx_iff k hne _ fun i g => ?_
    rw [sameToolCall_iff]
    exact ⟨fun h => h.2.2.1, fun h => ⟨rfl, fun _ => equalArgs_self k g.arguments, h, fun _ _ => rfl⟩⟩

omit [DecidableEq A] in
/-- The last item appended survives the cap. -/
theorem appendItems_concat_messages (conv : Conversation) (stamps : Nat → Stamp)
    (items : List ConversationItem) {it : ConversationItem} (hm : it.message c k = some m) :
    ∃ kept, (conv.appendItems stamps (items ++ [it])).messages c k = kept ++ [m] := by
  have hcap : 1 ≤ maxConversationItems := by decide
  rw [Conversation.messages, Conversation.appendItems, mapIdx_concat, ← append_assoc]
  dsimp only
  rw [drop_append_of_le_length (by rw [length_append, length_singleton]; omega),
    conversationItemsToMessages, filterMap_append,
    filterMap_cons_some ((normalizeItem_message c k _ it).trans hm)]
  exact ⟨_, rfl⟩

/-- A conversation brings each call back in a message of its own; the last one survives the
cap. -/
theorem comeBack_conversation {k : ArgsCodec A} (hk : k.Lawful) (conv : Conversation)
    (instructions : Bytes) (input : List (RequestMessage A)) (stamps stampsAgain : Nat → Stamp)
    (instructionsAgain : Bytes) (client : Client N) (hne : resp.toolCalls ≠ []) :
    ComeBack k ((Route.conversation conv instructions input stamps stampsAgain
        instructionsAgain).second c k client resp) resp.toolCalls
      (resp.toolCalls.length ≤ 1 ∧ ∀ g ∈ resp.toolCalls, Readable k g) := by
  obtain ⟨init, last, hlast⟩ := (eq_nil_or_concat' resp.toolCalls).resolve_left hne
  obtain ⟨items, stamp, hitems⟩ : ∃ items stamp, turnItems c k stamps input resp =
      items ++ [functionCallItem k stamp resp.toolResults init.length last] := by
    rw [turnItems, assistantItemsFromResponse, hlast, mapIdx_concat, ← append_assoc, ← append_assoc]
    exact ⟨_, _, rfl⟩
  obtain ⟨kept, hkept⟩ := appendItems_concat_messages c k conv stampsAgain items
    (functionCallItem_message c k stamp resp.toolResults init.length last)
  refine ⟨instructionMessages instructionsAgain ++ kept,
    callMessage k resp.toolResults init.length last, _, answers_answerItems c k client hne,
    cons_ne_nil _ _, ?_, ?_⟩
  · rw [Route.second, addTurn_messages, hitems, hkept, append_assoc _ kept]
  · rw [hlast]
    exact sameToolCalls_last_iff k (sameToolCall_kept_iff hk last _)

/-- Every route brings the calls of a response back, recognisably when it carries them. -/
theorem comeBack_second {k : ArgsCodec A} (hk : k.Lawful) (route : Route N A) (client : Client N)
    (hne : resp.toolCalls ≠ []) :
    ComeBack k (route.second c k client resp) resp.toolCalls (route.Carries k resp.toolCalls) := by
  cases route with
  | chat history => exact comeBack_chat c hk history client hne
  | items instructions history => exact comeBack_items c hk instructions history client hne
  | previousResponse messages instructions =>
    exact comeBack_previousResponse c k messages instructions client hne
  | conversation conv instructions input stamps stampsAgain again =>
    exact comeBack_conversation c hk conv instructions input stamps stampsAgain again client hne

theorem carries_nil (route : Route N A) : route.Carries k [] := by
  cases route <;> simp [Route.Carries]

/-! ## Convergence -/

def firstResponse (mode : StrictMode) (tc : ToolChoice) (ctx : ToolContext) (route : Route N A)
    (client : Client N) (resp : Response A) : Response A :=
  { (settleToolCalls k mode tc ctx (route.first c k) resp).1 with
    toolResults := client.toolResults }

/-- The response when the client has answered every call and the scenario matches again; its
text may have been rendered anew. -/
def secondResponse (mode : StrictMode) (tc : ToolChoice) (ctx : ToolContext) (route : Route N A)
    (client : Client N) (resp : Response A) (content : Bytes) : Response A :=
  (settleToolCalls k mode tc ctx
    (route.second c k client (firstResponse c k mode tc ctx route client resp))
    { resp with content := content }).1

/-- **When the tool loop converges.**  With no forcing tool choice, and calls that the first
request has handed out, the next generation has no tool calls exactly when the tool choice
forbids them or the route carries the calls the client has seen. -/
theorem tool_loop_converges_iff {k : ArgsCodec A} (hk : k.Lawful) (mode : StrictMode)
    {tc : ToolChoice} (hforce : tc.required = false) (ctx : ToolContext) (route : Route N A)
    (client : Client N) (resp : Response A) (content : Bytes)
    (hfirst : consumed k mode tc (route.first c k) resp.toolCalls = false) :
    (secondResponse c k mode tc ctx route client resp content).toolCalls = [] ↔
      tc.none = true ∨ route.Carries k (guardCalls mode tc resp.toolCalls) := by
  rw [secondResponse, settleToolCalls_toolCalls k mode hforce]
  by_cases hnone : tc.none = true
  · simp [hnone]
  by_cases hcalls : resp.toolCalls = []
  · simp [hcalls, guardCalls_nil, carries_nil]
  have hguard : guardCalls mode tc resp.toolCalls ≠ [] :=
    (guardCalls_eq_nil_iff mode tc resp.toolCalls).not.mpr hcalls
  have hgiven : (firstResponse c k mode tc ctx route client resp).toolCalls =
      guardCalls mode tc resp.toolCalls := by
    have hsettled := settleToolCalls_toolCalls k mode hforce ctx (route.first c k) resp
    rw [hfirst] at hsettled
    simpa [firstResponse, hnone] using hsettled
  obtain ⟨before, m, results, hanswers, hm, hsecond, hsame⟩ :=
    comeBack_second c hk route client (hgiven ▸ hguard)
  rw [hgiven] at hsame
  have hconsumed := (hanswers.consumed_iff k before hm mode tc hcalls).trans hsame
  rw [hsecond]
  by_cases hcarries : route.Carries k (guardCalls mode tc resp.toolCalls)
  · rw [if_pos (.inr (hconsumed.mpr hcarries))]
    simp [hcarries]
  · rw [if_neg (not_or.mpr ⟨hnone, hconsumed.not.mpr hcarries⟩)]
    simp [hguard, hnone, hcarries]

end

/-! ## Some scenarios -/

/-- Two argument maps: the empty one, also for `nil`, and one with a member. -/
def sampleArgs : ArgsCodec Bool where
  nil := false
  empty := false
  len m := if m then 1 else 0
  marshal m := some (if m then bytes "\x7b\"q\":1\x7d" else bytes "\x7b\x7d")
  unmarshal raw :=
    if coerce raw = [] then none else some (decide (coerce raw = bytes "\x7b\"q\":1\x7d"))

theorem sampleArgs_lawful : sampleArgs.Lawful where
  len_nil := rfl
  len_empty := rfl
  unmarshal_nothing := by decide +kernel
  unmarshal_null := by decide +kernel
  unmarshal_empty := by decide +kernel
  unmarshal_coerce b := by
    have hagain : coerce (coerce b) = coerce b :=
      (coerce_eq_self_iff _).mpr (valid_encode _)
    simp only [sampleArgs, hagain]
  marshal_unmarshal _ m _ := by
    refine ⟨_, rfl, ?_⟩
    cases m <;> decide +kernel

def sampleClient : Client Unit where
  toolResults := [bytes "call_a", bytes "call_b"]
  generated _ := []
  text := .null
  textItems := []
  answer _ := .string (bytes "42")
  output _ := bytes "\"42\""

def auto : ToolChoice := ⟨false, false, [], [], false⟩

def sampleContext : ToolContext := ⟨[], [], [], []⟩

def searchAndFetch : Response Bool :=
  ⟨[], [], [⟨bytes "search", true, []⟩, ⟨bytes "fetch", false, bytes "\x7b\"q\":1\x7d"⟩], []⟩

def askChat : Route Unit Bool := .chat [⟨bytes "user", .string (bytes "go"), [], []⟩]

theorem tool_loop_converges_chat :
    (secondResponse sampleCodec sampleArgs .off auto sampleContext askChat sampleClient
      searchAndFetch []).toolCalls = [] := by
  refine (tool_loop_converges_iff sampleCodec sampleArgs_lawful .off rfl sampleContext askChat
    sampleClient searchAndFetch [] (by decide +kernel)).mpr (.inr fun g hg => ?_)
  have hparsed : sampleArgs.unmarshal (bytes "\x7b\"q\":1\x7d") = some true := by decide +kernel
  simp only [searchAndFetch, guardCalls, reduceCtorEq, false_and, if_false, mem_cons,
    not_mem_nil, or_false] at hg
  rcases hg with rfl | rfl
  · exact ⟨fun _ => .inr ⟨_, true, rfl, hparsed⟩, by decide +kernel, fun h => absurd rfl h⟩
  · refine ⟨fun h => absurd h (by decide), by decide +kernel, fun _ h => ?_⟩
    cases h

/-- Through a conversation two parallel calls are handed out again, and so is a call with
readable raw arguments behind a response id. -/
theorem answered_calls_reissued :
    (secondResponse sampleCodec sampleArgs .off auto sampleContext
      (.conversation ⟨[], 0⟩ [] [textMessage (bytes "user") (bytes "go")] (fun _ => ⟨[], 1⟩)
        (fun _ => ⟨[], 1⟩) []) sampleClient searchAndFetch []).toolCalls.map (·.name) =
      [bytes "search", bytes "fetch"] ∧
    (secondResponse sampleCodec sampleArgs .off auto sampleContext
      (.previousResponse [textMessage (bytes "user") (bytes "go")] []) sampleClient
      ⟨[], [], [⟨bytes "fetch", false, bytes "\x7b\"q\":1\x7d"⟩], []⟩ []).toolCalls.map (·.name) =
      [bytes "fetch"] := by
  decide +kernel

end MockAgents.Adapter
