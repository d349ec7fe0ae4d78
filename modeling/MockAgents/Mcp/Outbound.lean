import MockAgents.Lib.Pool
import MockAgents.Lib.Utf8
/-!
# The server-to-client queue

`bidirectional.go`: one queue, the subscriptions made so far, and the goroutines over
them.  A critical section, a `select` and a non-blocking send are one step each.  A
`Subscribe` goes on as the pump it starts.  A message carries the number of its
`enqueue`, and a history beside the queue records where messages went.
-/

namespace MockAgents.Mcp

open Lib

/-! ## Messages -/

inductive OutboundKind where
  | request
  | notification
deriving DecidableEq

structure Request where
  id : Bytes
  method : String
  params : Bytes
deriving DecidableEq

structure Notification where
  method : String
deriving DecidableEq

structure OutboundMessage where
  kind : OutboundKind
  request : Option Request
  notification : Option Notification
deriving DecidableEq

def OutboundMessage.ofRequest (r : Request) : OutboundMessage := ⟨.request, some r, none⟩

def OutboundMessage.ofNotification (n : Notification) : OutboundMessage :=
  ⟨.notification, none, some n⟩

/-- A request in the queue under an id, as `dropRequest` looks for it. -/
def OutboundMessage.asks (m : OutboundMessage) (id : Bytes) : Bool :=
  decide (m.kind = .request) && m.request.any fun r => decide (r.id = id)

/-- A queued message, with how many were enqueued before it. -/
structure Entry where
  seq : Nat
  msg : OutboundMessage
deriving DecidableEq

/-! ## The queue -/

def maxPendingNotifications : Nat := 1024

/-- `wake` holds a signal or is empty; `done` is closed or open. -/
structure Subscription where
  wake : Bool
  done : Bool
deriving DecidableEq

structure Bidirectional where
  outbound : List Entry
  sub : Option Nat
  /-- every subscription made, under its number -/
  subs : List Subscription
deriving DecidableEq

/-- What became of the messages: those enqueued, those received in the order of receipt,
those the cap dropped and those `dropRequest` removed. -/
structure History where
  sent : List Entry
  delivered : List Entry
  dropped : List Entry
  removed : List Entry
deriving DecidableEq

structure Shared where
  bi : Bidirectional
  history : History
deriving DecidableEq

def newBidirectional : Bidirectional := ⟨[], none, []⟩

namespace Bidirectional

def stopped (b : Bidirectional) (s : Nat) : Bool := b.subs[s]?.any (·.done)

def woken (b : Bidirectional) (s : Nat) : Bool := b.subs[s]?.any (·.wake)

def stop (b : Bidirectional) (s : Nat) : Bidirectional :=
  { b with subs := b.subs.modify s fun x => { x with done := true } }

/-- A send on `wake` that does not block: a signal that is there already is enough. -/
def wakeUp (b : Bidirectional) (s : Nat) : Bidirectional :=
  { b with subs := b.subs.modify s fun x => { x with wake := true } }

def takeWake (b : Bidirectional) (s : Nat) : Bidirectional :=
  { b with subs := b.subs.modify s fun x => { x with wake := false } }

def stopCurrent (b : Bidirectional) : Bidirectional :=
  match b.sub with
  | some old => b.stop old
  | none => b

def attach (b : Bidirectional) : Bidirectional :=
  { b.stopCurrent with sub := some b.subs.length, subs := b.stopCurrent.subs ++ [⟨false, false⟩] }

def detach (b : Bidirectional) (s : Nat) : Bidirectional :=
  if b.sub = some s then { b with sub := none } else b

end Bidirectional

namespace Shared

def entry (s : Shared) (msg : OutboundMessage) : Entry := ⟨s.history.sent.length, msg⟩

def excess (s : Shared) : Nat := s.bi.outbound.length + 1 - maxPendingNotifications

/-- The critical section of `enqueue`: the oldest messages over the bound go. -/
def append (s : Shared) (msg : OutboundMessage) : Shared :=
  { bi := { s.bi with outbound := (s.bi.outbound ++ [s.entry msg]).drop s.excess }
    history :=
      { s.history with
        sent := s.history.sent ++ [s.entry msg]
        dropped := s.history.dropped ++ (s.bi.outbound ++ [s.entry msg]).take s.excess } }

def putBack (s : Shared) (e : Entry) : Shared :=
  { s with bi := { s.bi with outbound := e :: s.bi.outbound } }

def receive (s : Shared) (e : Entry) : Shared :=
  { s with history := { s.history with delivered := s.history.delivered ++ [e] } }

def dropRequest (s : Shared) (id : Bytes) : Shared :=
  { bi := { s.bi with outbound := s.bi.outbound.eraseP (·.msg.asks id) }
    history :=
      { s.history with
        removed := s.history.removed ++ (s.bi.outbound.find? (·.msg.asks id)).toList } }

end Shared

/-! ## The goroutines -/

inductive PumpPc where
  /-- before the lock at the head of the loop -/
  | head
  /-- in the `select` on an empty queue -/
  | wait
  /-- in the `select` with a message taken off the queue -/
  | send (e : Entry)
  /-- detached with a message in hand, before the lock -/
  | back (e : Entry)
  | signal (next : Option Nat)
  | exited
deriving DecidableEq

/-- Which ready case a `select` takes: its channel, or `done`. -/
inductive Ready where
  | channel
  | done
deriving DecidableEq

/-- One step of `pump`; a `select` whose case is not ready stays. -/
def pump (ready : Ready) (s : Shared) (sub : Nat) : PumpPc → Shared × PumpPc
  | .head =>
    if s.bi.stopped sub then (s, .exited)
    else
      match s.bi.outbound with
      | [] => (s, .wait)
      | e :: rest => ({ s with bi := { s.bi with outbound := rest } }, .send e)
  | .wait =>
    match ready with
    | .channel => if s.bi.woken sub then ({ s with bi := s.bi.takeWake sub }, .head) else (s, .wait)
    | .done => if s.bi.stopped sub then (s, .exited) else (s, .wait)
  | .send e =>
    match ready with
    | .channel => (s.receive e, .head)
    | .done => if s.bi.stopped sub then (s, .back e) else (s, .send e)
  | .back e => (s.putBack e, .signal s.bi.sub)
  | .signal (some next) => ({ s with bi := s.bi.wakeUp next }, .exited)
  | .signal none => (s, .exited)
  | .exited => (s, .exited)

inductive Call where
  | subscribe
  | cancel (sub : Nat)
  | enqueue (msg : OutboundMessage)
  | dropRequest (id : Bytes)
deriving DecidableEq

inductive Task where
  | subscribe
  | pump (sub : Nat) (pc : PumpPc)
  /-- before `sub.stop()` -/
  | cancel (sub : Nat)
  /-- before the lock of `cancel` -/
  | detach (sub : Nat)
  | enqueue (msg : OutboundMessage)
  /-- an `enqueue` past its critical section -/
  | signal (sub : Option Nat)
  | dropRequest (id : Bytes)
  | returned
deriving DecidableEq

def Task.start : Call → Task
  | .subscribe => .subscribe
  | .cancel sub => .cancel sub
  | .enqueue msg => .enqueue msg
  | .dropRequest id => .dropRequest id

/-- The next step of a goroutine.  There is a `cancel` only for a subscription that was
made. -/
def Task.next (ready : Ready) (s : Shared) : Task → Shared × Task
  | .subscribe => ({ s with bi := s.bi.attach }, .pump s.bi.subs.length .head)
  | .pump sub pc => ((Mcp.pump ready s sub pc).1, .pump sub (Mcp.pump ready s sub pc).2)
  | .cancel sub =>
    if sub < s.bi.subs.length then ({ s with bi := s.bi.stop sub }, .detach sub)
    else (s, .cancel sub)
  | .detach sub => ({ s with bi := s.bi.detach sub }, .returned)
  | .enqueue msg => (s.append msg, .signal s.bi.sub)
  | .signal (some sub) => ({ s with bi := s.bi.wakeUp sub }, .returned)
  | .signal none => (s, .returned)
  | .dropRequest id => (s.dropRequest id, .returned)
  | .returned => (s, .returned)

def mcp : System Shared Task Call Ready := ⟨Task.start, Task.next⟩

def opened : Pool Shared Task := ⟨⟨newBidirectional, ⟨[], [], [], []⟩⟩, []⟩

/-! ## What a goroutine holds -/

def Task.holds : Task → Option Entry
  | .pump _ (.send e) | .pump _ (.back e) => some e
  | _ => none

def Task.signals : Task → Option Nat
  | .signal sub | .pump _ (.signal sub) => sub
  | _ => none

def Task.serves : Task → Option Nat
  | .pump sub _ => some sub
  | _ => none

end MockAgents.Mcp
