import MockAgents.Lib.Maps
import MockAgents.Lib.Pool
import MockAgents.State.Session
/-!
# The session store

`store.go`: sessions behind pointers, the map from ids to them, and every call as a
sequence of atomic steps.  A critical section and an `IsExpired` check are one step each;
a turn refreshes the session it was given in one step under the session's own lock.  The
environment chooses the time of a step, which does not run back, and the order of a loop
over the map.
-/

namespace MockAgents.State

open Lib Lib.Maps

/-- Ids to pointers. -/
abbrev SessionMap := AList fun _ : String => Nat

structure MemoryStore where
  sessions : SessionMap
  ttl : Int
  maxSessions : Int
  maxHistory : Int

/-- The store, every session allocated so far, and the time of the last step. -/
structure Shared where
  store : MemoryStore
  heap : List Session
  now : Int

structure Choice where
  now : Int
  order : Shuffle

/-- `NewSession` with the history bound of the store; its variables, which the store never
looks at, are left nil. -/
def newSession (id agentName : String) (ttl maxHistory now : Int) : Session :=
  { id := id, agentName := agentName, messages := [], turnCount := 0, vars := none,
    createdAt := now, lastAccess := now, ttl := ttl, maxHistory := maxHistory }

def expired (heap : List Session) (now : Int) (p : Nat) : Bool := heap[p]?.any (·.isExpired now)

def lastAccess (heap : List Session) (p : Nat) : Int := heap[p]?.elim 0 (·.lastAccess)

/-! ## Eviction -/

def unexpired (heap : List Session) (now : Int) (m : SessionMap) : SessionMap :=
  keepIf (fun _ p => !expired heap now p) m

/-- The entries in the order of their last access; ties stand as the loop found them. -/
def byLastAccess (order : Shuffle) (heap : List Session) (m : SessionMap) :
    List (Sigma fun _ : String => Nat) :=
  (order.list m.entries).mergeSort fun a b => decide (lastAccess heap a.2 ≤ lastAccess heap b.2)

def dropCount (maxSessions : Int) (m : SessionMap) : Nat :=
  min (max (maxSessions / 16).toNat 1) m.entries.length

def dropOldest (order : Shuffle) (heap : List Session) (maxSessions : Int) (m : SessionMap) :
    SessionMap :=
  keepIf (fun id _ => decide (id ∉
    ((byLastAccess order heap m).take (dropCount maxSessions m)).map (·.1))) m

def evictForSpaceLocked (order : Shuffle) (heap : List Session) (now maxSessions : Int)
    (m : SessionMap) : SessionMap :=
  if maxSessions ≤ 0 ∨ (m.entries.length : Int) < maxSessions then m
  else if ((unexpired heap now m).entries.length : Int) < maxSessions then unexpired heap now m
  else dropOldest order heap maxSessions (unexpired heap now m)

/-! ## The calls -/

inductive GetPc where
  | lookup
  | check (p : Nat)
  | remove (p : Nat)
  | done (result : Option Nat)
deriving DecidableEq

inductive GetOrCreatePc where
  | lookup
  | check (p : Nat)
  | create
  | done (result : Nat)
deriving DecidableEq

inductive CleanupPc where
  | snapshot
  | scan (todo expired : List Nat)
  | remove (expired : List Nat)
  | done
deriving DecidableEq

inductive Call where
  | get (id : String)
  | getOrCreate (id agentName : String)
  | delete (id : String)
  | cleanup
  /-- a turn that succeeds, on the session it was given -/
  | turn (p : Nat) (userContent : String) (reply : Reply) (vars : Nat)
deriving DecidableEq

inductive Task where
  | get (id : String) (pc : GetPc)
  | getOrCreate (id agentName : String) (pc : GetOrCreatePc)
  | delete (id : String)
  | cleanup (pc : CleanupPc)
  | turn (p : Nat) (userContent : String) (reply : Reply) (vars : Nat)
  | returned
deriving DecidableEq

def Task.start : Call → Task
  | .get id => .get id .lookup
  | .getOrCreate id agentName => .getOrCreate id agentName .lookup
  | .delete id => .delete id
  | .cleanup => .cleanup .snapshot
  | .turn p userContent reply vars => .turn p userContent reply vars

namespace Shared

variable (s : Shared)

def setSessions (m : SessionMap) : Shared := { s with store := { s.store with sessions := m } }

def deleteIfSame (id : String) (p : Nat) : Shared :=
  if s.store.sessions.lookup id = some p then s.setSessions (s.store.sessions.erase id) else s

def getStep (ch : Choice) (id : String) : GetPc → Shared × GetPc
  | .lookup =>
    match s.store.sessions.lookup id with
    | none => (s, .done none)
    | some p => (s, .check p)
  | .check p => if expired s.heap ch.now p then (s, .remove p) else (s, .done (some p))
  | .remove p => (s.deleteIfSame id p, .done none)
  | .done r => (s, .done r)

def vacated (now : Int) (id : String) : SessionMap :=
  match s.store.sessions.lookup id with
  | some p => if expired s.heap now p then s.store.sessions.erase id else s.store.sessions
  | none => s.store.sessions

def evicted (ch : Choice) (id : String) : SessionMap :=
  evictForSpaceLocked ch.order s.heap ch.now s.store.maxSessions (s.vacated ch.now id)

def create (ch : Choice) (id agentName : String) : Shared :=
  { s with
    store := { s.store with sessions := (s.evicted ch id).insert id s.heap.length }
    heap := s.heap ++ [newSession id agentName s.store.ttl s.store.maxHistory ch.now] }

def live (now : Int) (id : String) : Option Nat :=
  (s.store.sessions.lookup id).filter fun p => !expired s.heap now p

def getOrCreateStep (ch : Choice) (id agentName : String) : GetOrCreatePc → Shared × GetOrCreatePc
  | .lookup =>
    match s.store.sessions.lookup id with
    | none => (s, .create)
    | some p => (s, .check p)
  | .check p => if expired s.heap ch.now p then (s, .create) else (s, .done p)
  | .create =>
    match s.live ch.now id with
    | some p => (s, .done p)
    | none => (s.create ch id agentName, .done s.heap.length)
  | .done p => (s, .done p)

def cleanupOne (now : Int) (m : SessionMap) (p : Nat) : SessionMap :=
  match s.heap[p]? with
  | none => m
  | some session =>
    if m.lookup session.id = some p ∧ session.isExpired now = true then m.erase session.id else m

def cleanupStep (ch : Choice) : CleanupPc → Shared × CleanupPc
  | .snapshot => (s, .scan (ch.order.list (s.store.sessions.entries.map (·.2))) [])
  | .scan (p :: todo) found =>
    (s, .scan todo (if expired s.heap ch.now p then found ++ [p] else found))
  | .scan [] [] => (s, .done)
  | .scan [] found => (s, .remove found)
  | .remove found => (s.setSessions (found.foldl (s.cleanupOne ch.now) s.store.sessions), .done)
  | .done => (s, .done)

def turnStep (ch : Choice) (p : Nat) (userContent : String) (reply : Reply) (vars : Nat) : Shared :=
  { s with
    heap := s.heap.modify p fun session =>
      ({ session with vars := some vars }.appendUserMessage ch.now userContent)
        |>.appendAssistantMessage ch.now reply.content reply.toolCalls }

end Shared

def Task.step (ch : Choice) (s : Shared) : Task → Shared × Task
  | .get id pc => ((s.getStep ch id pc).1, .get id (s.getStep ch id pc).2)
  | .getOrCreate id agentName pc =>
    ((s.getOrCreateStep ch id agentName pc).1,
      .getOrCreate id agentName (s.getOrCreateStep ch id agentName pc).2)
  | .delete id => (s.setSessions (s.store.sessions.erase id), .returned)
  | .cleanup pc => ((s.cleanupStep ch pc).1, .cleanup (s.cleanupStep ch pc).2)
  | .turn p userContent reply vars => (s.turnStep ch p userContent reply vars, .returned)
  | .returned => (s, .returned)

/-- One step of a call; one that would turn the clock back does not happen. -/
def Task.next (ch : Choice) (s : Shared) (t : Task) : Shared × Task :=
  if s.now ≤ ch.now then
    ({ (t.step ch s).1 with now := ch.now }, (t.step ch s).2)
  else (s, t)

def sessionStore : System Shared Task Call Choice := ⟨Task.start, Task.next⟩

def opened (ttl maxSessions maxHistory now : Int) : Pool Shared Task :=
  ⟨⟨⟨∅, ttl, maxSessions, maxHistory⟩, [], now⟩, []⟩

end MockAgents.State
