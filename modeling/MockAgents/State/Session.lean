import MockAgents.Lib.Heap
/-!
# A session and its turns

`session.go`: the history of a conversation and its variables, a map of decoded JSON
behind references.  `ApplyTurn` hands its callback a map it may change, nested values
included; whether the session keeps those changes depends on what the callback returns.
The session lock is held throughout, so turns follow one another.
-/

namespace MockAgents.State

open Lib

/-- A map with its keys in the order of the children, or a slice. -/
inductive Shape where
  | map (keys : List String)
  | slice
deriving DecidableEq

variable {S : Type}

def emptyMap : Node Shape S := ⟨.map [], []⟩

def isEmptyMap : Node Shape S → Bool
  | ⟨.map [], []⟩ => true
  | _ => false

inductive Role where
  | user
  | assistant
deriving DecidableEq

/-- The arguments are a nil map or the address of one. -/
structure ToolCallMsg where
  name : String
  arguments : Option Nat
deriving DecidableEq

structure Message where
  role : Role
  content : String
  toolCalls : List ToolCallMsg
  timestamp : Int
deriving DecidableEq

/-- Times are in nanoseconds; `vars` is a nil map or the address of one. -/
structure Session where
  id : String
  agentName : String
  messages : List Message
  turnCount : Int
  vars : Option Nat
  createdAt : Int
  lastAccess : Int
  ttl : Int
  maxHistory : Int
deriving DecidableEq

namespace Session

def appendUserMessage (s : Session) (now : Int) (content : String) : Session :=
  { s with
    messages := s.messages ++ [⟨.user, content, [], now⟩]
    turnCount := s.turnCount + 1
    lastAccess := now }

/-- The oldest messages over `MaxHistory` go. -/
def trim (s : Session) : Session :=
  if 0 < s.maxHistory ∧ s.maxHistory < s.messages.length then
    { s with messages := s.messages.drop (s.messages.length - s.maxHistory.toNat) }
  else s

def appendAssistantMessage (s : Session) (now : Int) (content : String)
    (toolCalls : List ToolCallMsg) : Session :=
  trim { s with
    messages := s.messages ++ [⟨.assistant, content, toolCalls, now⟩]
    lastAccess := now }

def isExpired (s : Session) (now : Int) : Bool :=
  decide (0 < s.ttl) && decide (s.ttl < now - s.lastAccess)

end Session

/-! ## Turns -/

structure Reply where
  content : String
  toolCalls : List ToolCallMsg
deriving DecidableEq

/-- The callback of `ApplyTurn`.  It is given a turn number and a map; it can change what
that map leads to and allocate, and what it keeps in the map is JSON. -/
structure Build (S : Type) where
  run : Int → Nat → Heap Shape S → Except String Reply × Heap Shape S
  grows : ∀ n a h, h.length ≤ (run n a h).2.length
  frame : ∀ n a h b, b < h.length → ¬ h.Reaches a b → (run n a h).2[b]? = h[b]?
  json : ∀ n a h, (h.tree (.ref a)).isSome = true → (run n a h).1.isOk = true →
    (Heap.tree (run n a h).2 (.ref a)).isSome = true

structure Turn (S : Type) where
  userContent : String
  build : Build S
  /-- the clock when the user message and when the assistant message is recorded -/
  userTime : Int
  assistantTime : Int

/-- A turn as it went: the turn number the callback was given, and the two messages that
were recorded. -/
structure Applied where
  saw : Int
  result : Except String (Message × Message)

def reusedEmptyVariables (s : Session) (h : Heap Shape S) : Bool :=
  s.vars.any fun a => h[a]?.any isEmptyMap

/-- `cloneVariables`; on a map that contains itself it does not return. -/
def cloneVariables (vars : Option Nat) (h : Heap Shape S) : Option (Nat × Heap Shape S) :=
  match vars with
  | none => some (h.length, h ++ [emptyMap])
  | some a =>
    match h.copy h.length (.ref a) with
    | some (.ref a', h') => some (a', h')
    | _ => none

def givenVariables (s : Session) (h : Heap Shape S) : Option (Nat × Heap Shape S) :=
  if reusedEmptyVariables s h then s.vars.map fun a => (a, h) else cloneVariables s.vars h

def clear (h : Heap Shape S) (a : Nat) : Heap Shape S := h.set a emptyMap

def applyTurn (t : Turn S) (s : Session) (h : Heap Shape S) :
    Option (Applied × Session × Heap Shape S) :=
  match givenVariables s h with
  | none => none
  | some (vars, h₁) =>
    let saw := s.turnCount + 1
    match t.build.run saw vars h₁ with
    | (.error err, h₂) =>
      some (⟨saw, .error err⟩, s, if reusedEmptyVariables s h then clear h₂ vars else h₂)
    | (.ok reply, h₂) =>
      some (⟨saw, .ok (⟨.user, t.userContent, [], t.userTime⟩,
          ⟨.assistant, reply.content, reply.toolCalls, t.assistantTime⟩)⟩,
        ({ s with vars := some vars }.appendUserMessage t.userTime t.userContent)
          |>.appendAssistantMessage t.assistantTime reply.content reply.toolCalls, h₂)

def applyTurns : List (Turn S) → Session → Heap Shape S →
    Option (List Applied × Session × Heap Shape S)
  | [], s, h => some ([], s, h)
  | t :: ts, s, h =>
    match applyTurn t s h with
    | none => none
    | some (a, s₁, h₁) =>
      match applyTurns ts s₁ h₁ with
      | none => none
      | some (log, s₂, h₂) => some (a :: log, s₂, h₂)

end MockAgents.State
