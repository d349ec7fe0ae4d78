import MockAgents.Adapter.Responses
/-!
# Replay of a conversation

A conversation should give the engine the history that the client would send inline.  What
it gives back for a turn is `replayed`: every input message as a plain text message, and the
assistant messages of the response.  The two histories agree exactly when the input of every
turn was plain text to begin with.
-/

namespace MockAgents.Adapter

open Lib Lib.Utf8 Engine List ConversationItem Conversation

section
variable {N A : Type} (c : ItemCodec N) (k : ArgsCodec A)

/-! ## The inline history -/

def textMessage (role content : Bytes) : RequestMessage A := ⟨role, content, 0, false, [], []⟩

/-- The call at a position of a response, as the client sends it back. -/
def callMessage (toolResults : List Bytes) (i : Nat) (tc : ToolCallSpec A) : RequestMessage A :=
  ⟨bytes "assistant", [], 0, false,
    [{ echoToolCall k tc.name (tc.argumentsJSON k) with id := toolResults.getD i [] }], []⟩

def callMessages (resp : Response A) : List (RequestMessage A) :=
  resp.toolCalls.mapIdx (callMessage k resp.toolResults)

def assistantMessages (resp : Response A) : List (RequestMessage A) :=
  (if resp.content = [] then [] else [textMessage (bytes "assistant") resp.content]) ++
    callMessages k resp

/-- The turns that succeed after a history: the input messages and the response of each. -/
def exchanges : List (RequestMessage A) → List (Turn A) →
    List (List (RequestMessage A) × Response A)
  | _, [] => []
  | history, t :: turns =>
    match t.exchange c k history with
    | none => exchanges history turns
    | some e => e :: exchanges (history ++ (e.1 ++ assistantMessages k e.2)) turns

def inlineHistory (history : List (RequestMessage A)) (turns : List (Turn A)) :
    List (RequestMessage A) :=
  (exchanges c k history turns).flatMap fun e => e.1 ++ assistantMessages k e.2

/-- A message of text alone: no images, no tool result, no calls, nothing outside UTF-8. -/
def Plain (m : RequestMessage A) : Prop :=
  m.imageCount = 0 ∧ m.isToolResult = false ∧ m.toolCalls = [] ∧ m.toolResultIDs = [] ∧
    valid m.content = true

/-- What a conversation gives back for a turn. -/
def replayed (e : List (RequestMessage A) × Response A) : List (RequestMessage A) :=
  e.1.map (fun m => textMessage m.role (coerce m.content)) ++
    ((if e.2.content = [] then []
      else [textMessage (bytes "assistant") (coerce e.2.content)]) ++ callMessages k e.2)

/-! ## The items of a turn -/

theorem responsesItemToMessage_text {itemType : Bytes}
    (h : itemType = [] ∨ itemType = bytes "message")
    (role content output name arguments callID : Bytes) :
    responsesItemToMessage c k itemType role content output name arguments callID =
      some ⟨if role = [] then bytes "user" else role,
        extractStringContent c.sprint (decodeContent c content),
        countResponsesImages (decodeContent c content), false, [], []⟩ := by
  have hout : itemType ≠ bytes "function_call_output" := by
    rcases h with rfl | rfl <;> decide
  have hcall : itemType ≠ bytes "function_call" := by
    rcases h with rfl | rfl <;> decide
  rw [responsesItemToMessage, if_neg hout, if_neg hcall, if_pos h]

theorem responsesItemToMessage_call (role content output name arguments callID : Bytes) :
    responsesItemToMessage c k (bytes "function_call") role content output name arguments callID =
      some ⟨bytes "assistant", [], 0, false,
        [{ echoToolCall k name arguments with id := callID }], []⟩ := by
  rw [responsesItemToMessage, if_neg (by decide), if_pos rfl]

theorem normalizeItem_message (stamp : Stamp) (it : ConversationItem) :
    (normalizeItem stamp it).message c k = it.message c k := by
  by_cases htext : it.type = [] ∨ it.type = bytes "message"
  · have htype : (normalizeItem stamp it).type = bytes "message" := by
      rcases htext with h | h <;> simp [normalizeItem, h]
    have hrole : (normalizeItem stamp it).role =
        if it.role = [] then bytes "user" else it.role := by
      rcases htext with h | h <;> simp [normalizeItem, h]
    rw [message, message,
      responsesItemToMessage_text c k (.inr htype), responsesItemToMessage_text c k htext, hrole]
    by_cases hnil : it.role = []
    · rw [if_pos hnil]
      rfl
    · rw [if_neg hnil, if_neg hnil]
      rfl
  · rw [not_or] at htext
    simp [message, normalizeItem, htext.1, htext.2]

variable {c} in
theorem userMessageItem_message (hc : c.Lawful) (stamp : Stamp) {role : Bytes} (hrole : role ≠ [])
    (content : Bytes) :
    (userMessageItem c stamp role content).message c k =
      some (textMessage role (coerce content)) := by
  rw [userMessageItem, normalizeItem_message, message,
    responsesItemToMessage_text c k (.inr rfl), if_neg hrole]
  simp [decodeContent, hc.encodeString_ne_nil, hc.decode_encodeString, extractStringContent,
    countResponsesImages, textMessage]

theorem functionCallItem_message (stamp : Stamp) (toolResults : List Bytes) (i : Nat)
    (tc : ToolCallSpec A) :
    (functionCallItem k stamp toolResults i tc).message c k =
      some (callMessage k toolResults i tc) := by
  rfl

theorem messages_mapIdx {X : Type} {f : Nat → X → ConversationItem}
    {g : Nat → X → RequestMessage A} (xs : List X)
    (h : ∀ i, ∀ x ∈ xs, (f i x).message c k = some (g i x)) :
    conversationItemsToMessages c k (xs.mapIdx f) = xs.mapIdx g := by
  induction xs generalizing f g with
  | nil => rfl
  | cons x xs ih =>
    rw [mapIdx_cons, mapIdx_cons, conversationItemsToMessages,
      filterMap_cons_some (h 0 x mem_cons_self)]
    rw [← ih fun i y hy => h (i + 1) y (mem_cons_of_mem x hy), conversationItemsToMessages]

theorem messages_normalize (stamps : Nat → Stamp) (items : List ConversationItem) :
    conversationItemsToMessages c k (items.mapIdx fun i it => normalizeItem (stamps i) it) =
      conversationItemsToMessages c k items := by
  induction items generalizing stamps with
  | nil => rfl
  | cons it items ih =>
    have ih := ih fun i => stamps (i + 1)
    rw [conversationItemsToMessages] at ih ⊢
    rw [mapIdx_cons, filterMap_cons, normalizeItem_message, ih]
    rfl

variable {c} in
theorem assistantItems_messages (hc : c.Lawful) (stamps : Nat → Stamp) (resp : Response A) :
    conversationItemsToMessages c k (assistantItemsFromResponse c k stamps resp) =
      (if resp.content = [] then []
        else [textMessage (bytes "assistant") (coerce resp.content)]) ++ callMessages k resp := by
  have hcalls := messages_mapIdx c k resp.toolCalls fun i tc _ =>
    functionCallItem_message c k (stamps (i + 1)) resp.toolResults i tc
  rw [assistantItemsFromResponse, conversationItemsToMessages, filterMap_append]
  rw [conversationItemsToMessages] at hcalls
  rw [hcalls]
  congr 1
  split
  · rfl
  · rw [filterMap_cons_some (userMessageItem_message k hc _ (by decide) _)]
    rfl

variable {c} in
/-- **A turn gives back its replayed messages.** -/
theorem turnItems_messages (hc : c.Lawful) (stamps : Nat → Stamp)
    {input : List (RequestMessage A)} (hroles : ∀ m ∈ input, m.role ≠ []) (resp : Response A) :
    conversationItemsToMessages c k (turnItems c k stamps input resp) =
      replayed k (input, resp) := by
  have hinput := messages_mapIdx c k input fun i m hm =>
    userMessageItem_message k hc (stamps i) (hroles m hm) m.content
  have hassistant := assistantItems_messages k hc (fun i => stamps (input.length + i)) resp
  rw [conversationItemsToMessages] at hinput hassistant ⊢
  rw [turnItems, filterMap_append, hinput, hassistant, replayed]
  congr 1
  exact ext_getElem (by simp) (by simp)

theorem length_replayed (e : List (RequestMessage A) × Response A) :
    (replayed k e).length = (e.1 ++ assistantMessages k e.2).length := by
  rw [replayed, assistantMessages]
  split <;> simp

/-! ## One turn -/

theorem responsesItemToMessage_role {itemType role content output name arguments callID : Bytes}
    {m : RequestMessage A}
    (h : responsesItemToMessage c k itemType role content output name arguments callID = some m) :
    m.role ≠ [] := by
  rw [responsesItemToMessage] at h
  split at h
  · cases h
    show bytes "tool" ≠ []
    decide
  · split at h
    · cases h
      show bytes "assistant" ≠ []
      decide
    · split at h
      · cases h
        dsimp only
        split
        · decide
        · assumption
      · cases h

theorem parseResponsesInput_role {raw : Bytes} {input : List (RequestMessage A)}
    (h : parseResponsesInput c k raw = .ok input) : ∀ m ∈ input, m.role ≠ [] := by
  intro m hm
  rw [parseResponsesInput] at h
  split at h
  · cases h
    simp at hm
  · split at h
    · cases h
      split at hm
      · simp at hm
      · rw [mem_singleton] at hm
        rw [hm]
        show bytes "user" ≠ []
        decide
    · split at h
      · cases h
      · cases h
        obtain ⟨it, -, hit⟩ := mem_filterMap.mp hm
        exact responsesItemToMessage_role c k hit

theorem exchange_role {t : Turn A} {history : List (RequestMessage A)}
    {e : List (RequestMessage A) × Response A} (h : t.exchange c k history = some e) :
    ∀ m ∈ e.1, m.role ≠ [] := by
  rw [Turn.exchange] at h
  split at h
  · cases h
  next input hinput =>
    split at h
    · cases h
    · obtain ⟨resp, -, rfl⟩ := Option.map_eq_some_iff.mp h
      exact parseResponsesInput_role c k hinput

/-- Of the history, a turn's success depends only on whether there is one. -/
theorem exchange_congr (t : Turn A) {history history' : List (RequestMessage A)}
    (h : history.length = history'.length) : t.exchange c k history = t.exchange c k history' := by
  have hnil : history = [] ↔ history' = [] := by
    rw [← length_eq_zero_iff, h, length_eq_zero_iff]
  simp [Turn.exchange, hnil]

theorem appendItems_items (conv : Conversation) (stamps : Nat → Stamp)
    (items : List ConversationItem)
    (hcap : conv.items.length + items.length ≤ maxConversationItems) :
    (conv.appendItems stamps items).items =
      conv.items ++ items.mapIdx fun i it => normalizeItem (stamps i) it := by
  simp only [appendItems]
  rw [Nat.sub_eq_zero_of_le (by simpa using hcap), drop_zero]

theorem appendItems_messages (conv : Conversation) (stamps : Nat → Stamp)
    (items : List ConversationItem)
    (hcap : conv.items.length + items.length ≤ maxConversationItems) :
    (conv.appendItems stamps items).messages c k =
      conv.messages c k ++ conversationItemsToMessages c k items := by
  rw [messages, appendItems_items conv stamps items hcap]
  conv_lhs => rw [conversationItemsToMessages, filterMap_append]
  rw [← messages_normalize c k stamps items]
  rfl

theorem addTurn_messages (conv : Conversation) :
    conv.addTurn.messages c k = conv.messages c k := rfl

/-! ## Runs -/

variable {c} in
/-- **Below the cap a run gives back the replayed messages of its turns.**  By induction on the
turns; the history that decides which turns succeed is only as long as the conversation. -/
theorem run_messages (hc : c.Lawful) (turns : List (Turn A)) (conv : Conversation)
    (history : List (RequestMessage A)) (hlen : (conv.messages c k).length = history.length)
    (hcap : conv.items.length + (inlineHistory c k history turns).length ≤ maxConversationItems) :
    (conv.run c k turns).messages c k =
      conv.messages c k ++ (exchanges c k history turns).flatMap (replayed k) := by
  induction turns generalizing conv history with
  | nil => simp [run, exchanges]
  | cons t turns ih =>
    have hserve : conv.run c k (t :: turns) = (conv.serve c k t).run c k turns := rfl
    have hexchange := exchange_congr c k t hlen
    rw [inlineHistory, exchanges] at hcap
    rw [hserve, exchanges]
    cases he : t.exchange c k history with
    | none =>
      have hsame : conv.serve c k t = conv := by rw [serve, hexchange, he]
      rw [he] at hcap
      rw [hsame]
      exact ih conv history hlen hcap
    | some e =>
      obtain ⟨input, resp⟩ := e
      rw [he] at hcap
      rw [flatMap_cons, length_append] at hcap
      dsimp only at hcap
      have hitems : (turnItems c k t.stamps input resp).length =
          (input ++ assistantMessages k resp).length := by
        rw [turnItems, assistantItemsFromResponse, assistantMessages, callMessages]
        split <;> simp
      have hfits : conv.items.length + (turnItems c k t.stamps input resp).length ≤
          maxConversationItems := by
        omega
      have hnext : conv.serve c k t =
          (conv.appendItems t.stampsAgain (turnItems c k t.stamps input resp)).addTurn := by
        rw [serve, hexchange, he]
      have hmessages : (conv.serve c k t).messages c k =
          conv.messages c k ++ replayed k (input, resp) := by
        rw [hnext, addTurn_messages, appendItems_messages c k conv t.stampsAgain _ hfits,
          turnItems_messages k hc t.stamps (exchange_role c k he) resp]
      have hcount : (conv.serve c k t).items.length =
          conv.items.length + (turnItems c k t.stamps input resp).length := by
        rw [hnext, addTurn, appendItems_items conv _ _ hfits]
        simp
      rw [ih (conv.serve c k t) (history ++ (input ++ assistantMessages k resp)), hmessages,
        flatMap_cons, append_assoc]
      · rw [hmessages, length_append, length_append, hlen, length_replayed]
      · rw [hcount, inlineHistory]
        omega

/-! ## Agreement -/

/-- Pieces of equal lengths make equal lists exactly when they are equal one by one. -/
theorem flatMap_eq_flatMap_iff {X Y : Type} {f g : X → List Y}
    (hlen : ∀ x, (f x).length = (g x).length) (xs : List X) :
    xs.flatMap f = xs.flatMap g ↔ ∀ x ∈ xs, f x = g x := by
  induction xs with
  | nil => simp
  | cons x xs ih =>
    rw [flatMap_cons, flatMap_cons,
      append_eq_append_iff_of_size_eq_left (hlen x), ih, forall_mem_cons]

theorem replayed_text_eq_iff (m : RequestMessage A) :
    textMessage m.role (coerce m.content) = m ↔ Plain m := by
  obtain ⟨role, content, imageCount, isToolResult, toolCalls, toolResultIDs⟩ := m
  simp only [textMessage, RequestMessage.mk.injEq, true_and, coerce_eq_self_iff, Plain]
  constructor
  · rintro ⟨hvalid, rfl, rfl, rfl, rfl⟩
    exact ⟨rfl, rfl, rfl, rfl, hvalid⟩
  · rintro ⟨rfl, rfl, rfl, rfl, hvalid⟩
    exact ⟨hvalid, rfl, rfl, rfl, rfl⟩

/-- A turn comes back as it was exactly when its input is plain and its text is UTF-8. -/
theorem replayed_eq_iff (e : List (RequestMessage A) × Response A) :
    replayed k e = e.1 ++ assistantMessages k e.2 ↔
      (∀ m ∈ e.1, Plain m) ∧ valid e.2.content = true := by
  rw [replayed, append_eq_append_iff_of_size_eq_left (by simp)]
  refine and_congr ?_ ?_
  · have hmap : e.1.map (fun m => textMessage m.role (coerce m.content)) = e.1 ↔
        ∀ m ∈ e.1, textMessage m.role (coerce m.content) = id m := by
      rw [← map_inj_left, map_id]
    rw [hmap]
    exact forall₂_congr fun m _ => replayed_text_eq_iff m
  · rw [assistantMessages, append_left_inj]
    split
    next hnil =>
      simp [hnil, valid, runes_nil]
    · simp [textMessage, coerce_eq_self_iff]

end

/-! ## A greeting and a tool result -/

def toolResultInput : Bytes :=
  bytes "[\x7b\"type\":\"function_call_output\",\"call_id\":\"call_1\",\"output\":\"42\"\x7d]"

/-- Strings without escapes, and the one array of items. -/
def sampleCodec : ItemCodec Unit where
  decode
    | 0x22 :: rest => some (.string rest.dropLast)
    | _ => none
  decodeString
    | 0x22 :: rest => some rest.dropLast
    | _ => none
  decodeItems raw :=
    if raw = toolResultInput then
      some [⟨bytes "function_call_output", [], [], bytes "call_1", bytes "\"42\"", [], []⟩]
    else none
  encodeString s := 0x22 :: (coerce s ++ [0x22])
  sprint _ := []

theorem sampleCodec_lawful : sampleCodec.Lawful where
  encodeString_ne_nil _ := cons_ne_nil _ _
  decode_encodeString s := by simp [sampleCodec]

def emptyArgs : ArgsCodec Unit where
  nil := ()
  empty := ()
  len _ := 0
  marshal _ := some (bytes "\x7b\x7d")
  unmarshal raw := if raw = [] then none else some ()

def sampleTurn (input content : Bytes) : Turn Unit where
  input := input
  instructions := []
  stamps i := ⟨[UInt8.ofNat i], 1⟩
  stampsAgain i := ⟨[UInt8.ofNat i], 1⟩
  outcome := some ⟨content, [], [], []⟩

def greeting : Turn Unit := sampleTurn (bytes "\"hi\"") (bytes "Hello.")

theorem exchanges_greeting : exchanges sampleCodec emptyArgs [] [greeting] =
    [([textMessage (bytes "user") (bytes "hi")], ⟨bytes "Hello.", [], [], []⟩)] := rfl

end MockAgents.Adapter
