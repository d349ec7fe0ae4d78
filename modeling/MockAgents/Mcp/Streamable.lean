import MockAgents.Mcp.Outbound
/-!
# Resumable event streams

The session of `streamable.go` with its replay log and its subscribers, the handlers of GET
requests over it, and one client that opens a stream again with the last id it received.  A
critical section, a `select` and a write are one step each; when a context ends or a write
fails is the environment's choice.  Beside the session stands every event it ever logged, and
beside each stream what its handler has written.
-/

namespace MockAgents.Mcp

open Lib

def maxSessionLogEvents : Nat := 1024

def maxSubscribersPerSession : Nat := 1

def subscriberChanBuffer : Nat := 64

structure LoggedEvent where
  id : Nat
  data : Bytes
deriving DecidableEq

structure StreamSession where
  nextID : Nat
  log : List LoggedEvent
  /-- the attached channels, each under the number of its stream -/
  subs : List Nat
  closed : Bool
deriving DecidableEq

/-- A stream has a channel, and what its handler has written. -/
structure Stream where
  buffer : List LoggedEvent
  closed : Bool
  written : List LoggedEvent
deriving DecidableEq

/-- The client reads one stream.  What was written to it is in flight until it is received. -/
structure Client where
  stream : Option Nat
  inFlight : List LoggedEvent
  received : List LoggedEvent
deriving DecidableEq

structure Hub where
  session : StreamSession
  /-- every stream made, under its number -/
  streams : List Stream
  client : Client
  /-- every event that was logged -/
  sent : List LoggedEvent
deriving DecidableEq

/-- The `Last-Event-ID` the client sends; without the header the handler reads 0. -/
def Client.lastID (c : Client) : Nat := (c.received.getLast?.map (·.id)).getD 0

namespace Hub

variable (s : Hub)

def modify (n : Nat) (f : Stream → Stream) : Hub := { s with streams := s.streams.modify n f }

def buffer (n : Nat) : List LoggedEvent := (s.streams[n]?.map (·.buffer)).getD []

def written (n : Nat) : List LoggedEvent := (s.streams[n]?.map (·.written)).getD []

/-! ## The session -/

/-- The event gets the next id; the oldest events over the bound go. -/
def record (data : Bytes) : Hub :=
  let ev : LoggedEvent := ⟨s.session.nextID + 1, data⟩
  let log := s.session.log ++ [ev]
  { s with
    session := { s.session with
      nextID := s.session.nextID + 1
      log := log.drop (log.length - maxSessionLogEvents) }
    sent := s.sent ++ [ev] }

/-- A send that does not block; a full channel is closed and detached. -/
def offer (ev : LoggedEvent) (s : Hub) (n : Nat) : Hub :=
  if (s.buffer n).length < subscriberChanBuffer then
    s.modify n fun st => { st with buffer := st.buffer ++ [ev] }
  else
    { s.modify n fun st => { st with closed := true } with
      session := { s.session with subs := s.session.subs.erase n } }

/-- `broadcastNotification`, with what encoding the notification gives. -/
def broadcastNotification (data : Option Bytes) : Hub :=
  match data with
  | none => s
  | some data =>
    if s.session.closed then s
    else s.session.subs.foldl (offer ⟨s.session.nextID + 1, data⟩) (s.record data)

def close : Hub :=
  if s.session.closed then s
  else
    { s.session.subs.foldl (fun s n => s.modify n fun st => { st with closed := true }) s with
      session := { s.session with closed := true, subs := [] } }

def detach (n : Nat) : Hub :=
  { s with session := { s.session with subs := s.session.subs.erase n } }

/-! ## The connections -/

def write (n : Nat) (ev : LoggedEvent) : Hub :=
  { s.modify n fun st => { st with written := st.written ++ [ev] } with
    client :=
      if s.client.stream = some n then { s.client with inFlight := s.client.inFlight ++ [ev] }
      else s.client }

/-- The client gives up the stream it reads for a new one. -/
def connect : Hub :=
  { s with
    streams := s.streams ++ [⟨[], false, []⟩]
    client := { s.client with stream := some s.streams.length, inFlight := [] } }

def disconnect : Hub := { s with client := { s.client with stream := none, inFlight := [] } }

def receive : Hub :=
  match s.client.inFlight with
  | [] => s
  | ev :: rest => { s with client := { s.client with inFlight := rest, received := s.client.received ++ [ev] } }

end Hub

/-! ## The handlers -/

inductive Handler where
  | broadcast (data : Option Bytes)
  | close
  /-- a GET of somebody else, with the `Last-Event-ID` as it was parsed -/
  | get (after : Int)
  /-- a GET of the client -/
  | connect
  | disconnect
  | receive
  /-- before the critical section of `subscribe` -/
  | subscribe (n : Nat) (after : Int)
  /-- writing the events that were missed -/
  | replay (n : Nat) (events : List LoggedEvent)
  /-- in the `select` -/
  | live (n : Nat)
  | write (n : Nat) (ev : LoggedEvent)
  /-- before the deferred `cancel` -/
  | cancel (n : Nat)
  /-- a handler that has returned; `atCap` is 409 -/
  | ended (n : Nat) (atCap : Bool)
  | done
deriving DecidableEq

inductive StreamCall where
  | broadcast (data : Option Bytes)
  | close
  | get (after : Int)
  | connect
  | disconnect
  | receive
deriving DecidableEq

def Handler.start : StreamCall → Handler
  | .broadcast data => .broadcast data
  | .close => .close
  | .get after => .get after
  | .connect => .connect
  | .disconnect => .disconnect
  | .receive => .receive

def Hub.subscribe (s : Hub) (n : Nat) (after : Int) : Hub × Handler :=
  if s.session.closed then (s.modify n fun st => { st with closed := true }, .replay n [])
  else if maxSubscribersPerSession ≤ s.session.subs.length then
    (s.modify n fun st => { st with closed := true }, .ended n true)
  else
    ({ s with session := { s.session with subs := s.session.subs ++ [n] } },
      .replay n (s.session.log.filter fun ev => after < ev.id))

/-- One step.  `channel` lets a write succeed and a `select` read the channel; `done` lets the
write fail or the context end. -/
def Handler.next (ready : Ready) (s : Hub) : Handler → Hub × Handler
  | .broadcast data => (s.broadcastNotification data, .done)
  | .close => (s.close, .done)
  | .get after =>
    ({ s with streams := s.streams ++ [⟨[], false, []⟩] }, .subscribe s.streams.length after)
  | .connect => (s.connect, .subscribe s.streams.length s.client.lastID)
  | .disconnect => (s.disconnect, .done)
  | .receive => (s.receive, .done)
  | .subscribe n after => s.subscribe n after
  | .replay n [] => (s, .live n)
  | .replay n (ev :: rest) =>
    match ready with
    | .channel => (s.write n ev, .replay n rest)
    | .done => (s, .cancel n)
  | .live n =>
    match ready with
    | .channel =>
      match s.buffer n with
      | ev :: rest => (s.modify n fun st => { st with buffer := rest }, .write n ev)
      | [] => if (s.streams[n]?.any (·.closed)) then (s, .cancel n) else (s, .live n)
    | .done => (s, .cancel n)
  | .write n ev =>
    match ready with
    | .channel => (s.write n ev, .live n)
    | .done => (s, .cancel n)
  | .cancel n => (s.detach n, .ended n false)
  | .ended n atCap => (s, .ended n atCap)
  | .done => (s, .done)

def streams : System Hub Handler StreamCall Ready := ⟨Handler.start, Handler.next⟩

def fresh : Pool Hub Handler := ⟨⟨⟨0, [], [], false⟩, [], ⟨none, [], []⟩, []⟩, []⟩

def Handler.stream : Handler → Option Nat
  | .subscribe n _ | .replay n _ | .live n | .write n _ | .cancel n | .ended n _ => some n
  | _ => none

end MockAgents.Mcp
