import MockAgents.Mcp.Outbound
/-!
# Requests of the server

`SendRequest` and `DeliverResponse` of `bidirectional.go`, over the queue and its goroutines.
A critical section, an atomic add, a `select` and a send on a channel are one step each; when
a context ends is the environment's choice.  Beside the state stands which subscription
received what, which requests were withdrawn and abandoned, and with how many subscriptions
made by then.
-/

namespace MockAgents.Mcp

open Lib Lib.Utf8

structure Response where
  id : Bytes
  payload : Bytes
deriving DecidableEq

/-- A response channel, made for an id.  What it holds comes with the number of its
`DeliverResponse`. -/
structure Chan where
  owner : Bytes
  buffer : Option (Nat × Response)
deriving DecidableEq

/-- What is known of the past: what each subscription received, the requests that were
dropped by their `SendRequest`, and those whose `SendRequest` has returned without a response,
each with the number of subscriptions made by then. -/
structure Log where
  received : List (Nat × Entry)
  withdrawn : List (Bytes × Nat)
  abandoned : List (Bytes × Nat)
  /-- how many responses have come in -/
  responses : Nat
deriving DecidableEq

structure Rpc where
  queue : Shared
  pending : AList fun _ : Bytes => Nat
  /-- every response channel made, under its number -/
  chans : List Chan
  nextID : Nat
  log : Log

inductive Outcome where
  | response (k : Nat) (resp : Response)
  | contextEnded
deriving DecidableEq

inductive Goroutine where
  /-- a goroutine over the queue -/
  | queue (t : Task)
  /-- `SendRequest` before `newServerID`; the params are nil, or what encoding them gives -/
  | request (method : String) (params : Option (Except String Bytes))
  | register (req : Request)
  | enqueue (req : Request) (ch : Nat)
  /-- past the critical section of `enqueue` -/
  | signal (req : Request) (ch : Nat) (sub : Option Nat)
  /-- in the `select` on the response and the context -/
  | await (req : Request) (ch : Nat)
  /-- before `dropRequest` -/
  | withdraw (req : Request)
  /-- before the deferred `cleanup` -/
  | cleanup (req : Request) (outcome : Outcome)
  | answered (req : Request) (outcome : Outcome)
  | failed (err : String)
  /-- `DeliverResponse` -/
  | deliver (resp : Option Response)
  | route (k : Nat) (resp : Response)
  /-- before the send on the channel -/
  | resolve (k ch : Nat) (resp : Response)
  | delivered (err : Option Bytes)
deriving DecidableEq

inductive RpcCall where
  | subscribe
  | cancel (sub : Nat)
  | notify (n : Notification)
  | sendRequest (method : String) (params : Option (Except String Bytes))
  | deliverResponse (resp : Option Response)

def Goroutine.start : RpcCall → Goroutine
  | .subscribe => .queue .subscribe
  | .cancel sub => .queue (.cancel sub)
  | .notify n => .queue (.enqueue (.ofNotification n))
  | .sendRequest method params => .request method params
  | .deliverResponse resp => .deliver resp

/-- `strconv.FormatInt(n, 10)`. -/
def idOf (n : Nat) : Bytes := bytes (toString n)

def Task.receives (ready : Ready) : Task → Option (Nat × Entry)
  | .pump sub (.send e) => if ready = .channel then some (sub, e) else none
  | _ => none

namespace Rpc

variable (s : Rpc)

def subs : Nat := s.queue.bi.subs.length

def setBuffer (ch : Nat) (buffer : Option (Nat × Response)) : Rpc :=
  { s with chans := s.chans.modify ch fun c => { c with buffer := buffer } }

end Rpc

def Goroutine.next (ready : Ready) (s : Rpc) : Goroutine → Rpc × Goroutine
  | .queue t =>
    let (q, t') := t.next ready s.queue
    ({ s with
        queue := q
        log := { s.log with received := s.log.received ++ (t.receives ready).toList } }, .queue t')
  | .request method params =>
    let id := idOf (s.nextID + 1)
    ({ s with nextID := s.nextID + 1 }, match params with
      | none => .register ⟨id, method, []⟩
      | some (.ok raw) => .register ⟨id, method, raw⟩
      | some (.error err) => .failed ("mcp: marshal params: " ++ err))
  | .register req =>
    ({ s with
        chans := s.chans ++ [⟨req.id, none⟩]
        pending := s.pending.insert req.id s.chans.length }, .enqueue req s.chans.length)
  | .enqueue req ch =>
    ({ s with queue := s.queue.append (.ofRequest req) }, .signal req ch s.queue.bi.sub)
  | .signal req ch (some sub) =>
    ({ s with queue := { s.queue with bi := s.queue.bi.wakeUp sub } }, .await req ch)
  | .signal req ch none => (s, .await req ch)
  | .await req ch =>
    match ready with
    | .channel =>
      match s.chans[ch]?.bind (·.buffer) with
      | some (k, resp) => (s.setBuffer ch none, .cleanup req (.response k resp))
      | none => (s, .await req ch)
    | .done => (s, .withdraw req)
  | .withdraw req =>
    ({ s with
        queue := s.queue.dropRequest req.id
        log := { s.log with withdrawn := s.log.withdrawn ++ [(req.id, s.subs)] } },
      .cleanup req .contextEnded)
  | .cleanup req outcome =>
    ({ s with
        pending := s.pending.erase req.id
        log := { s.log with
          abandoned := s.log.abandoned ++
            if outcome = .contextEnded then [(req.id, s.subs)] else [] } }, .answered req outcome)
  | .answered req outcome => (s, .answered req outcome)
  | .failed err => (s, .failed err)
  | .deliver none => (s, .delivered (some (bytes "mcp: nil response")))
  | .deliver (some resp) =>
    if resp.id = [] then (s, .delivered (some (bytes "mcp: response missing id")))
    else
      ({ s with log := { s.log with responses := s.log.responses + 1 } },
        .route s.log.responses resp)
  | .route k resp =>
    match s.pending.lookup resp.id with
    | some ch => ({ s with pending := s.pending.erase resp.id }, .resolve k ch resp)
    | none => (s, .delivered (some (bytes "mcp: no pending request for id " ++ resp.id)))
  | .resolve k ch resp =>
    match s.chans[ch]?.map (·.buffer) with
    | some none => (s.setBuffer ch (some (k, resp)), .delivered none)
    | _ => (s, .resolve k ch resp)
  | .delivered err => (s, .delivered err)

def rpc : System Rpc Goroutine RpcCall Ready := ⟨Goroutine.start, Goroutine.next⟩

def idle : Pool Rpc Goroutine := ⟨⟨⟨newBidirectional, ⟨[], [], [], []⟩⟩, ∅, [], 0, ⟨[], [], [], 0⟩⟩, []⟩

end MockAgents.Mcp
