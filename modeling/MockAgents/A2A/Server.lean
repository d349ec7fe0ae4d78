import MockAgents.A2A.Wire
import MockAgents.Lib.Strings
import Mathlib
/-!
# The A2A task store

`server.go`: canned replies and the tasks they make.  Every operation holds the lock from
start to end, so a run is a sequence of operations.  Each reading of the clock is an input of
its own, in nanoseconds.  Params are given as what their decoding yields.
-/

namespace MockAgents.A2A

open Lib

variable {D : Type}

def errInvalidRequest : Int := -32600
def errMethodNotFound : Int := -32601
def errInvalidParams : Int := -32602
def errInternal : Int := -32603
def errTaskNotFound : Int := -32001
def errNotCancelable : Int := -32002

/-! ## Requests and responses -/

structure MessageSendParams (D : Type) where
  parts : Option (List (Part D))
  messageID : String
  contextID : String
  taskID : String
deriving DecidableEq

structure TaskIDParams where
  id : String
deriving DecidableEq

/-- A request with its params under each of the types they may be decoded as; an error is the
decoder's text. -/
structure RpcRequest (D : Type) where
  jsonrpc : String
  id : Bytes
  method : String
  messageParams : Except String (MessageSendParams D)
  taskParams : Except String TaskIDParams

inductive Result (D : Type) where
  | task (t : Task D)
  | message (m : Message D)
deriving DecidableEq

structure RpcError where
  code : Int
  message : String
  data : Option String
deriving DecidableEq

structure RpcResponse (D : Type) where
  jsonrpc : String
  id : Bytes
  result : Option (Result D)
  error : Option RpcError
deriving DecidableEq

def newResult (id : Bytes) (result : Result D) : RpcResponse D := ⟨"2.0", id, some result, none⟩

def newError (id : Bytes) (code : Int) (msg : String) (data : Option String) : RpcResponse D :=
  ⟨"2.0", id, none, some ⟨code, msg, data⟩⟩

/-! ## The server -/

structure MessageResponse (D : Type) where
  /-- `Match` -/
  pattern : String
  default : Bool
  text : String
  state : String
  asMessage : Bool
  data : Option D
deriving DecidableEq

/-- What the code calls outside the repository. -/
structure Env (D : Type) where
  marshalData : D → Option Bytes
  /-- what `json.Unmarshal` makes of the text of a task -/
  unmarshalTask : Bytes → Task D
  /-- `UTC().Format(time.RFC3339)` -/
  rfc3339 : Int → String
  /-- the Unicode tables of `%q` -/
  printable : Char → Bool

def defaultMaxTasks : Nat := 10000
def defaultMaxTaskBytes : Nat := 64 * 2 ^ 20
def defaultMaxTaskHistory : Nat := 256
def defaultTaskTTL : Int := 30 * 60 * 1000000000

structure ServerOptions where
  maxTasks : Int
  maxTaskBytes : Int
  maxHistory : Int
  taskTTL : Int
deriving DecidableEq

structure Server (D : Type) where
  responses : List (MessageResponse D)
  tasks : AList fun _ : String => Task D
  taskExpiry : AList fun _ : String => Int
  taskBytes : AList fun _ : String => Nat
  retainedBytes : Int
  maxTasks : Nat
  maxTaskBytes : Nat
  maxHistory : Nat
  taskTTL : Int
  seq : Nat

/-- `NewServerWithOptions`. -/
def newServer (responses : List (MessageResponse D)) (options : ServerOptions) : Server D where
  responses := responses
  tasks := ∅
  taskExpiry := ∅
  taskBytes := ∅
  retainedBytes := 0
  maxTasks := if options.maxTasks ≤ 0 then defaultMaxTasks else options.maxTasks.toNat
  maxTaskBytes := if options.maxTaskBytes ≤ 0 then defaultMaxTaskBytes else options.maxTaskBytes.toNat
  maxHistory := if options.maxHistory ≤ 0 then defaultMaxTaskHistory else options.maxHistory.toNat
  taskTTL := if options.taskTTL ≤ 0 then defaultTaskTTL else options.taskTTL
  seq := 0

/-- The readings of the clock in one operation, in the order of the code: when expired tasks
are removed, for the status, for the new deadline, and for the streamed events. -/
structure Readings where
  prune : Int
  stamp : Int
  expire : Int
  stream : Int
deriving DecidableEq

def isTerminal (state : String) : Bool :=
  state = "completed" || state = "canceled" || state = "failed" || state = "rejected"

def orDefault (v default : String) : String := if v ≠ "" then v else default

def partsText (parts : Option (List (Part D))) : String :=
  " ".intercalate (((parts.getD []).filter (·.text ≠ "")).map (·.text))

namespace Server

variable (s : Server D)

/-! ## Replies -/

/-- The loop of `matchResponse`. -/
def matchLoop (text : String) : List (MessageResponse D) → Option (MessageResponse D) →
    Option (MessageResponse D)
  | [], fallback => fallback
  | r :: rest, fallback =>
    if r.default then matchLoop text rest (some r)
    else if r.pattern ≠ "" && Strings.contains (Utf8.bytes text) (Utf8.bytes r.pattern) then some r
    else matchLoop text rest fallback

def matchResponse (text : String) : Option (MessageResponse D) := matchLoop text s.responses none

structure Reply (D : Type) where
  parts : List (Part D)
  state : String
  asMessage : Bool

def replyFor (userText : String) : Reply D :=
  match s.matchResponse userText with
  | none => ⟨[⟨"text", "(no response configured)", none, none⟩], "completed", false⟩
  | some resp =>
    { parts := ⟨"text", orDefault resp.text "(no response configured)", none, none⟩ ::
        match resp.data with
        | none => []
        | some data => [⟨"data", "", none, some data⟩]
      state := orDefault resp.state "completed"
      asMessage := resp.asMessage }

/-! ## Transitions -/

def nextID (kind : String) : Server D × String :=
  let seq := s.seq + 1
  ({ s with seq := seq }, kind ++ "-" ++ toString seq)

/-- The body of the loop of `pruneExpiredLocked`. -/
def forget (id : String) : Server D :=
  { s with
    retainedBytes := s.retainedBytes - ((s.taskBytes.lookup id).getD 0 : Nat)
    tasks := s.tasks.erase id
    taskBytes := s.taskBytes.erase id
    taskExpiry := s.taskExpiry.erase id }

/-- `pruneExpiredLocked`. -/
def pruneExpired (now : Int) : Server D :=
  s.taskExpiry.entries.foldl (fun s e => if e.2 ≤ now then s.forget e.1 else s) s

/-- `cloneTask`: through the text of the task. -/
def cloneTask (env : Env D) (t : Task D) : Task D :=
  match t.marshal env.marshalData with
  | none => Task.zero
  | some data => env.unmarshalTask data

/-- The task is stored under its id, with its size and a new deadline. -/
def store (task : Task D) (size : Nat) (expiry : Int) : Server D :=
  { s with
    tasks := s.tasks.insert task.id task
    taskBytes := s.taskBytes.insert task.id size
    retainedBytes := s.retainedBytes - ((s.taskBytes.lookup task.id).getD 0 : Nat) + (size : Nat)
    taskExpiry := s.taskExpiry.insert task.id expiry }

/-- The middle of `transitionLocked`: the turn's messages, the history up to its limit and the
artifact make the task. -/
def nextTask (env : Env D) (r : Readings) (p : MessageSendParams D) (parts : List (Part D))
    (state taskID contextID : String) (history : List (Message D)) (artifacts : List (Artifact D)) :
    Server D × Task D :=
  let (s, userMsgID) := s.nextID "msg"
  let userMsg : Message D :=
    ⟨"user", p.parts, orDefault p.messageID userMsgID, "message", taskID, contextID⟩
  let (s, agentMsgID) := s.nextID "msg"
  let agentMsg : Message D := ⟨"agent", some parts, agentMsgID, "message", taskID, contextID⟩
  let history := history ++ [userMsg, agentMsg]
  let history := if s.maxHistory < history.length then history.drop (history.length - s.maxHistory)
    else history
  let (s, artifactID) := s.nextID "artifact"
  let artifacts := artifacts ++ [⟨artifactID, "response", some parts⟩]
  (s, ⟨taskID, contextID, ⟨state, some agentMsg, env.rfc3339 r.stamp⟩, artifacts, history, "task"⟩)

def capacityExceeded (task : Task D) (size : Nat) : Bool :=
  let oldBytes := (s.taskBytes.lookup task.id).getD 0
  let newCount := s.tasks.keys.length + if (s.tasks.lookup task.id).isSome then 0 else 1
  s.maxTasks < newCount || s.maxTaskBytes < s.retainedBytes - (oldBytes : Nat) + (size : Nat)

/-- The end of `transitionLocked`: the task is stored if it fits. -/
def commit (env : Env D) (r : Readings) (id : Bytes) (task : Task D) :
    Server D × Except (RpcResponse D) (Task D) :=
  let size := task.encodedLen env.marshalData
  if s.capacityExceeded task size then
    (s, .error (newError id errInternal "mock task capacity exceeded" none))
  else (s.store task size (r.expire + s.taskTTL), .ok task)

/-- `transitionLocked`. -/
def transition (env : Env D) (r : Readings) (id : Bytes) (p : MessageSendParams D)
    (parts : List (Part D)) (state contextID : String) :
    Server D × Except (RpcResponse D) (Task D) :=
  let s := s.pruneExpired r.prune
  if p.taskID = "" then
    let (s, taskID) := s.nextID "task"
    let (s, task) := s.nextTask env r p parts state taskID contextID [] []
    s.commit env r id task
  else
    match s.tasks.lookup p.taskID with
    | none => (s, .error (newError id errTaskNotFound "task not found" none))
    | some prior =>
      if isTerminal prior.status.state then
        (s, .error (newError id errInvalidParams "terminal task cannot be continued" none))
      else if p.contextID ≠ "" && p.contextID ≠ prior.contextID then
        (s, .error (newError id errInvalidParams "contextId does not match task" none))
      else
        let (s, task) := s.nextTask env r p parts state p.taskID prior.contextID prior.history
          prior.artifacts
        s.commit env r id task

/-! ## Operations -/

def contextFor (contextID : String) : Server D × String :=
  if contextID = "" then s.nextID "ctx" else (s, contextID)

def handleMessageSend (env : Env D) (r : Readings) (req : RpcRequest D) :
    Server D × RpcResponse D :=
  match req.messageParams with
  | .error err => (s, newError req.id errInvalidParams "invalid params for message/send" (some err))
  | .ok p =>
    let reply := s.replyFor (partsText p.parts)
    let (s, contextID) := s.contextFor p.contextID
    if reply.asMessage && p.taskID = "" then
      let (s, msgID) := s.nextID "msg"
      (s, newResult req.id (.message ⟨"agent", some reply.parts, msgID, "message", "", contextID⟩))
    else
      match s.transition env r req.id p reply.parts reply.state contextID with
      | (s, .error errResp) => (s, errResp)
      | (s, .ok task) => (s, newResult req.id (.task (cloneTask env task)))

def eventsOf (env : Env D) (r : Readings) (p : MessageSendParams D) (task : Task D)
    (agentMsg : Message D) (artifact : Artifact D) (state contextID msgID : String) :
    List (Event D) :=
  let now := env.rfc3339 r.stream
  let userMsg : Message D :=
    ⟨"user", p.parts, orDefault p.messageID msgID, "message", task.id, contextID⟩
  [.task ⟨task.id, contextID, ⟨"working", none, now⟩, [], [userMsg], "task"⟩,
    .statusUpdate task.id contextID "status-update" ⟨"working", none, now⟩ false,
    .artifactUpdate task.id contextID "artifact-update" artifact false true,
    .statusUpdate task.id contextID "status-update" ⟨state, some agentMsg, now⟩ true]

/-- `StreamResults`.  The stored task has a status message and an artifact. -/
def streamResults (env : Env D) (r : Readings) (req : RpcRequest D) :
    Server D × Except (RpcResponse D) (List (Event D)) :=
  if req.jsonrpc ≠ "2.0" then
    (s, .error (newError req.id errInvalidRequest "jsonrpc must be \"2.0\"" none))
  else
    match req.messageParams with
    | .error err =>
      (s, .error (newError req.id errInvalidParams "invalid params for message/stream" (some err)))
    | .ok p =>
      let reply := s.replyFor (partsText p.parts)
      let (s, contextID) := s.contextFor p.contextID
      match s.transition env r req.id p reply.parts reply.state contextID with
      | (s, .error errResp) => (s, .error errResp)
      | (s, .ok task) =>
        let (s, msgID) := s.nextID "msg"
        match task.status.message, task.artifacts.getLast? with
        | some agentMsg, some artifact =>
          (s, .ok (eventsOf env r p task agentMsg artifact reply.state contextID msgID))
        | _, _ => (s, .ok [])

def handleTasksGet (env : Env D) (r : Readings) (req : RpcRequest D) : Server D × RpcResponse D :=
  match req.taskParams with
  | .error err => (s, newError req.id errInvalidParams "invalid params for tasks/get" (some err))
  | .ok p =>
    let s := s.pruneExpired r.prune
    match s.tasks.lookup p.id with
    | none =>
      (s, newError req.id errTaskNotFound
        ("task " ++ Strconv.quote env.printable (Utf8.bytes p.id) ++ " not found") none)
    | some task => (s, newResult req.id (.task (cloneTask env task)))

/-- What `tasks/cancel` makes of a task. -/
def canceled (env : Env D) (r : Readings) (task : Task D) : Task D :=
  { task with status := { task.status with state := "canceled", timestamp := env.rfc3339 r.stamp } }

def replaceAccounting (env : Env D) (task : Task D) : Server D :=
  let size := task.encodedLen env.marshalData
  { s with
    retainedBytes := s.retainedBytes + ((size : Nat) - ((s.taskBytes.lookup task.id).getD 0 : Nat))
    taskBytes := s.taskBytes.insert task.id size }

def handleTasksCancel (env : Env D) (r : Readings) (req : RpcRequest D) : Server D × RpcResponse D :=
  match req.taskParams with
  | .error err => (s, newError req.id errInvalidParams "invalid params for tasks/cancel" (some err))
  | .ok p =>
    let s := s.pruneExpired r.prune
    match s.tasks.lookup p.id with
    | none =>
      (s, newError req.id errTaskNotFound
        ("task " ++ Strconv.quote env.printable (Utf8.bytes p.id) ++ " not found") none)
    | some task =>
      if isTerminal task.status.state then
        (s, newError req.id errNotCancelable
          ("task " ++ Strconv.quote env.printable (Utf8.bytes p.id) ++ " is in terminal state " ++
            Strconv.quote env.printable (Utf8.bytes task.status.state) ++
            " and cannot be canceled") none)
      else
        let task := canceled env r task
        -- the task is changed in place, under the id it was found by
        let s := { s with
          tasks := s.tasks.insert p.id task
          taskExpiry := s.taskExpiry.insert p.id (r.expire + s.taskTTL) }
        let s := s.replaceAccounting env task
        (s, newResult req.id (.task (cloneTask env task)))

/-- `dispatch`; a notification of an unknown method has no response. -/
def dispatch (env : Env D) (r : Readings) (req : RpcRequest D) :
    Server D × Option (RpcResponse D) :=
  if req.jsonrpc ≠ "2.0" then
    (s, some (newError req.id errInvalidRequest "jsonrpc must be \"2.0\"" none))
  else if req.method = "message/send" || req.method = "message/stream" then
    let (s, resp) := s.handleMessageSend env r req
    (s, some resp)
  else if req.method = "tasks/get" then
    let (s, resp) := s.handleTasksGet env r req
    (s, some resp)
  else if req.method = "tasks/cancel" then
    let (s, resp) := s.handleTasksCancel env r req
    (s, some resp)
  else if req.id.isEmpty then (s, none)
  else
    (s, some (newError req.id errMethodNotFound
      ("method " ++ Strconv.quote env.printable (Utf8.bytes req.method) ++ " not supported") none))

end Server

/-! ## Runs -/

/-- A request to the JSON-RPC endpoint, or one served as a stream. -/
inductive Op (D : Type) where
  | rpc (r : Readings) (req : RpcRequest D)
  | stream (r : Readings) (req : RpcRequest D)

def Op.readings : Op D → Readings
  | .rpc r _ | .stream r _ => r

namespace Server

def apply (env : Env D) (s : Server D) : Op D → Server D
  | .rpc r req => (s.dispatch env r req).1
  | .stream r req => (s.streamResults env r req).1

/-- The error an operation is rejected with. -/
def rejection (env : Env D) (s : Server D) : Op D → Option RpcError
  | .rpc r req => (s.dispatch env r req).2.bind (·.error)
  | .stream r req =>
    match (s.streamResults env r req).2 with
    | .error resp => resp.error
    | .ok _ => none

def run (env : Env D) (s : Server D) (ops : List (Op D)) : Server D := ops.foldl (apply env) s

end Server

end MockAgents.A2A
