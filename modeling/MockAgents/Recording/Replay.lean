import MockAgents.Lib.Grouping
import MockAgents.Lib.Pool
import MockAgents.Recording.Proxy
/-!
# Replay

`internal/recording/replay.go`: requests are served from a cassette, while the proxy may append
to it.  The two locks make a lookup and the move of a cursor one step each, so that a request
takes up to four steps.
-/

namespace MockAgents.Recording

open Lib Lib.Utf8

/-- An interaction of a cassette and the request it was recorded for. -/
structure Recorded where
  source : ClientRequest
  interaction : Interaction

/-- A cassette in memory with its index, and the state of the replay over it: the position in
each sequence, and the index by match key with the number of interactions it has. -/
structure Replay where
  recorded : List Recorded
  byHash : Grouping Bytes Recorded
  cursor : AList fun _ : Bytes => Nat
  builtLen : Nat
  byMatchKey : Grouping Bytes Recorded

def Replay.new (recorded : List Recorded) : Replay :=
  ⟨recorded, Grouping.addAll (·.interaction.hash) ∅ recorded, ∅, 0, ∅⟩

section
variable {N : Type} (env : Env N) (m : Matcher)

def Replay.append (s : Replay) (now : Int) (q : ClientRequest) (it : Interaction) : Replay :=
  let stamped := stamp env.hashRequest now it
  { s with
    recorded := s.recorded ++ [⟨q, stamped⟩]
    byHash := s.byHash.add stamped.hash ⟨q, stamped⟩ }

def matchKey (e : Recorded) : Bytes :=
  m.key env e.interaction.method e.interaction.path e.interaction.requestBodyBytes

/-- `extendMatchIndex`, when the cassette has grown. -/
def Replay.extendMatchIndex (s : Replay) : Replay :=
  if s.builtLen < s.recorded.length then
    { s with
      byMatchKey := s.byMatchKey.addAll (matchKey env m) (s.recorded.drop s.builtLen)
      builtLen := s.recorded.length }
  else s

/-- `advance`, for a sequence that starts with an interaction. -/
def Replay.advance (s : Replay) (key : Bytes) (first : Recorded) (rest : List Recorded) : Replay × Recorded :=
  let seq := first :: rest
  let idx := (s.cursor.lookup key).getD 0
  match seq[idx]? with
  | some e => ({ s with cursor := s.cursor.insert key (idx + 1) }, e)
  | none => (s, seq.getLast (List.cons_ne_nil first rest))

/-! ## Requests -/

inductive Call where
  /-- a request through the proxy at a time -/
  | record (p : Proxy) (q : ClientRequest) (answer : Option Answer) (now : Int)
  | serve (r : ClientRequest)

inductive Task where
  | record (p : Proxy) (q : ClientRequest) (answer : Option Answer) (now : Int)
  | recorded
  /-- before the lock of the match index -/
  | index (r : ClientRequest)
  /-- before the lookup by hash -/
  | exact (r : ClientRequest)
  /-- before the lookup by the hash without the query -/
  | legacy (r : ClientRequest)
  /-- with a sequence, before the lock of the cursor -/
  | found (r : ClientRequest) (key : Bytes) (first : Recorded) (rest : List Recorded)
  | served (r : ClientRequest) (e : Recorded)
  | missed (r : ClientRequest)
  | refused (r : ClientRequest)

def Task.ofSequence (r : ClientRequest) (key : Bytes) (otherwise : Task) : List Recorded → Task
  | [] => otherwise
  | first :: rest => .found r key first rest

def Task.start : Call → Task
  | .record p q answer now => .record p q answer now
  | .serve r =>
    if maxRequestBodyBytes < r.body.length then .refused r
    else if m.active then .index r
    else .exact r

def Task.next (s : Replay) : Task → Replay × Task
  | .record p q answer now =>
    match p.record env q answer with
    | none => (s, .recorded)
    | some it => (s.append env now q it, .recorded)
  | .index r =>
    let s := s.extendMatchIndex env m
    let key := m.key env r.method r.path r.body
    (s, .ofSequence r key (.exact r) (s.byMatchKey.get key))
  | .exact r =>
    let hash := env.hashRequest r.method (env.hashPath r) r.body
    (s, .ofSequence r hash (if env.hashPath r = r.path then .missed r else .legacy r) (s.byHash.get hash))
  | .legacy r =>
    let hash := env.hashRequest r.method r.path r.body
    (s, .ofSequence r hash (.missed r) (s.byHash.get hash))
  | .found r key first rest =>
    let a := s.advance key first rest
    (a.1, .served r a.2)
  | t => (s, t)

/-- The replay server with the proxy that may record what it misses. -/
def replay : System Replay Task Call Unit := ⟨Task.start m, fun _ => Task.next env m⟩

end

end MockAgents.Recording
