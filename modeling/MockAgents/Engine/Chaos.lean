import MockAgents.Lib.Keys
import MockAgents.Lib.Maps
import MockAgents.Lib.Pool
import MockAgents.Realtime.Types
/-!
# Fault injection

`chaos.go`: counters per agent, kept under the tenant and the agent name, and the calls
`Before`, `After` and `ResetAgent` over them.  A critical section and a reading of the
clock are one step each; in particular the rate limit reads the clock before it takes the
lock.  The environment chooses the readings and the random draws.  The global policy does
not change while calls run.  Times are in nanoseconds.
-/

namespace MockAgents.Engine

open Lib Lib.Maps Lib.Utf8 Realtime

/-! ## Definitions -/

structure ChaosLatencyConfig where
  distribution : String
  minMs : Int
  maxMs : Int
  meanMs : Int
  stddevMs : Int
deriving DecidableEq

structure ChaosErrorConfig (F : Type) where
  rate : F
  statusCode : Int
  statusCodes : List Int
  timeout : Bool
  timeoutMs : Int
  message : String
  failFirst : Int

structure ChaosRateLimitConfig where
  requests : Int
  windowMs : Int
deriving DecidableEq

structure ChaosConnectionConfig (F : Type) where
  mode : String
  rate : F
  failFirst : Int

structure ChaosConfig (F : Type) where
  enabled : Bool
  latency : Option ChaosLatencyConfig
  errors : Option (ChaosErrorConfig F)
  rateLimit : Option ChaosRateLimitConfig
  connection : Option (ChaosConnectionConfig F)

/-- The part of an agent definition the injector reads.  Tenant ids and agent names have no
NUL. -/
structure Agent (F : Type) where
  tenantID : Bytes
  name : Bytes
  chaos : Option (ChaosConfig F)
  tenant_noNul : 0 ∉ tenantID
  name_noNul : 0 ∉ name

def hasAnyChaosSection {F : Type} (cfg : ChaosConfig F) : Bool :=
  cfg.latency.isSome || cfg.errors.isSome || cfg.rateLimit.isSome || cfg.connection.isSome

def chaosFor {F : Type} (agent : Agent F) : Option (ChaosConfig F) :=
  agent.chaos.filter fun cfg => cfg.enabled || hasAnyChaosSection cfg

structure ChaosError where
  statusCode : Int
  message : String
  retryAfter : Int
  timeout : Bool
  connection : String
deriving DecidableEq

/-! ## The injector -/

structure RateBucket where
  windowStart : Int
  count : Int
deriving DecidableEq

/-- The stages with a `FailFirst` counter. -/
inductive Stage where
  | error
  | connection
deriving DecidableEq

/-- The maps of the injector; `counts` holds `errorCounts` and `connCounts`. -/
structure ChaosInjector where
  buckets : AList fun _ : Bytes => RateBucket
  counts : Stage → AList fun _ : Bytes => Int
  globalCounts : AList fun _ : Bytes => Nat

/-- What does not change while calls run: the global policy, the sample its seed gives for a
request, and the texts of `http.StatusText`. -/
structure Settings (F : Type) where
  globalRate : Option F
  sample : Bytes → Bytes → F
  statusText : Int → String

/-- What the environment chooses for a step: the clock and the random draws. -/
structure Choice (F : Type) where
  now : Int
  float64 : F
  normFloat64 : F
  intn : Nat

def scopeKey (tenantID name : Bytes) : Bytes := tenantID ++ 0 :: name

def chaosKey {F : Type} (agent : Agent F) : Bytes := scopeKey agent.tenantID agent.name

/-- What happened at the counters of a key, in the order of the steps. -/
inductive Event where
  | reset
  /-- a call passed the rate limit and started a window -/
  | window (start : Int)
  /-- a call passed the rate limit in the running window -/
  | passed
  | limited
  /-- a call reached the trigger of a stage with a `FailFirst` -/
  | reached (stage : Stage)
deriving DecidableEq

structure Shared where
  injector : ChaosInjector
  history : List (Bytes × Event)

namespace Shared

def setBucket (s : Shared) (key : Bytes) (bucket : RateBucket) (e : Event) : Shared :=
  ⟨{ s.injector with buckets := s.injector.buckets.insert key bucket }, s.history ++ [(key, e)]⟩

def setCount (s : Shared) (key : Bytes) (stage : Stage) (n : Int) : Shared :=
  ⟨{ s.injector with counts :=
      Function.update s.injector.counts stage ((s.injector.counts stage).insert key n) },
    s.history ++ [(key, .reached stage)]⟩

def setGlobal (s : Shared) (counterKey : Bytes) (n : Nat) : Shared :=
  { s with injector :=
      { s.injector with globalCounts := s.injector.globalCounts.insert counterKey n } }

end Shared

/-- A `time.Duration` is a signed word. -/
def duration (n : Int) : Int := n.bmod (2 ^ 64)

def millisecond (ms : Int) : Int := duration (ms * 1000000)

/-- `Time.Sub`, which saturates. -/
def timeSub (t u : Int) : Int := max (-2 ^ 63) (min (2 ^ 63 - 1) (t - u))

def maxChaosLatencyMs : Int := 60000

/-! ### The rate limit -/

def rateLimitError (retryAfter : Int) : ChaosError :=
  ⟨429, "rate limit exceeded", retryAfter, false, ""⟩

/-- The critical section of `checkRateLimit`, with the clock as it was read before. -/
def checkRateLimit (s : Shared) (key : Bytes) (rl : ChaosRateLimitConfig) (now : Int) :
    Shared × Option ChaosError :=
  let window := millisecond rl.windowMs
  match s.injector.buckets.lookup key with
  | none => (s.setBucket key ⟨now, 1⟩ (.window now), none)
  | some bucket =>
    if window ≤ timeSub now bucket.windowStart then
      (s.setBucket key ⟨now, 1⟩ (.window now), none)
    else
      let count := bucket.count + 1
      if rl.requests < count then
        (s.setBucket key { bucket with count } .limited,
          some (rateLimitError (duration (window - timeSub now bucket.windowStart))))
      else (s.setBucket key { bucket with count } .passed, none)

/-! ### Triggers -/

section
variable {F : Type} [GoFloat F]

def clampUnitInterval (r : F) : F :=
  if GoFloat.lt r (GoFloat.ofInt 0) then GoFloat.ofInt 0
  else if GoFloat.lt (GoFloat.ofInt 1) r then GoFloat.ofInt 1
  else r

def shouldTrigger (ch : Choice F) (s : Shared) (key : Bytes) (rate : F) (failFirst : Int)
    (stage : Stage) : Shared × Bool :=
  if 0 < failFirst then
    let n := ((s.injector.counts stage).lookup key).getD 0 + 1
    (s.setCount key stage n, decide (n ≤ failFirst))
  else (s, GoFloat.lt ch.float64 (clampUnitInterval rate))

/-- `commonchaos.Decide` for the global rate. -/
def decideGlobal (settings : Settings F) (rate : F) (requestKey action : Bytes) : Bool :=
  if GoFloat.le rate (GoFloat.ofInt 0) then false
  else if GoFloat.le (GoFloat.ofInt 1) rate then true
  else GoFloat.lt (settings.sample requestKey action) rate

def globalAllows (settings : Settings F) (s : Shared) (key name action : Bytes) : Shared × Bool :=
  match settings.globalRate with
  | none => (s, true)
  | some rate =>
    let counterKey := key ++ 0 :: action
    let sequence := (s.injector.globalCounts.lookup counterKey).getD 0 + 1
    (s.setGlobal counterKey sequence,
      decideGlobal settings rate (name ++ 0 :: action ++ 0 :: bytes (toString sequence)) action)

/-! ### Faults -/

def pickStatusCode (ch : Choice F) (e : ChaosErrorConfig F) : Int :=
  if e.statusCodes.isEmpty then e.statusCode
  else (e.statusCodes[ch.intn % e.statusCodes.length]?).getD 0

def errorFault (settings : Settings F) (ch : Choice F) (e : ChaosErrorConfig F) : ChaosError :=
  if e.timeout then
    ⟨504, "request timed out", min (millisecond e.timeoutMs) (millisecond maxChaosLatencyMs), true,
      ""⟩
  else
    let picked := pickStatusCode ch e
    let status := if picked < 400 ∨ 599 < picked then 500 else picked
    ⟨status, if e.message = "" then settings.statusText status else e.message, 0, false, ""⟩

def connectionFault (c : ChaosConnectionConfig F) : ChaosError :=
  ⟨0, "", 0, false, if c.mode = "" then "empty" else c.mode⟩

def hasConfiguredError (e : ChaosErrorConfig F) : Bool :=
  decide (e.statusCode ≠ 0) || !e.statusCodes.isEmpty || e.timeout || decide (e.message ≠ "")

/-- Whether a stage runs at all: with a trigger of its own, or under the global policy. -/
def stageRuns (settings : Settings F) (rate : F) (failFirst : Int) (configured : Bool) : Bool :=
  GoFloat.lt (GoFloat.ofInt 0) rate || decide (0 < failFirst) ||
    (settings.globalRate.isSome && configured)

def stageGlobal (rate : F) (failFirst : Int) : Bool :=
  GoFloat.eq rate (GoFloat.ofInt 0) && decide (failFirst = 0)

/-! ### Latency -/

def clampLatency (ms : Int) : Int := millisecond (min (max ms 0) maxChaosLatencyMs)

def drawLatency (ch : Choice F) (l : ChaosLatencyConfig) : Int :=
  let dist := if l.distribution = "" then (if l.minMs < l.maxMs then "uniform" else "fixed")
    else l.distribution
  if dist = "uniform" then
    let lo := max l.minMs 0
    let hi := min l.maxMs maxChaosLatencyMs
    if hi ≤ lo then l.minMs else lo + (ch.intn % (hi - lo + 1).toNat : Nat)
  else if dist = "normal" then
    let ms := GoFloat.add (GoFloat.mul ch.normFloat64 (GoFloat.ofInt l.stddevMs))
      (GoFloat.ofInt l.meanMs)
    if GoFloat.lt ms (GoFloat.ofInt 0) || !GoFloat.eq ms ms then 0
    else if GoFloat.lt (GoFloat.ofInt maxChaosLatencyMs) ms then maxChaosLatencyMs
    else GoFloat.toInt ms
  else l.minMs

def sampleLatency (ch : Choice F) (l : ChaosLatencyConfig) : Int := clampLatency (drawLatency ch l)

end

/-! ## The calls -/

inductive BeforePc (F : Type) where
  /-- before the clock is read -/
  | clock (rl : ChaosRateLimitConfig)
  /-- before the lock of the rate limit -/
  | limit (rl : ChaosRateLimitConfig) (now : Int)
  | errors
  | errorTrigger (e : ChaosErrorConfig F)
  | connection
  | connectionTrigger (c : ChaosConnectionConfig F)
  | done (err : Option ChaosError)

inductive Call (F : Type) where
  | before (agent : Agent F)
  | after (agent : Agent F)
  | reset (agent : Agent F)

inductive Task (F : Type) where
  | before (agent : Agent F) (pc : BeforePc F)
  /-- the delay `After` sleeps for, once it is chosen -/
  | after (agent : Agent F) (delay : Option (Option Int))
  | reset (agent : Agent F) (finished : Bool)

section
variable {F : Type}

def BeforePc.first (agent : Agent F) : BeforePc F :=
  match chaosFor agent with
  | none => .done none
  | some cfg =>
    match cfg.rateLimit with
    | none => .errors
    | some rl => if 0 < rl.requests ∧ 0 < rl.windowMs then .clock rl else .errors

def Task.start : Call F → Task F
  | .before agent => .before agent (.first agent)
  | .after agent => .after agent none
  | .reset agent => .reset agent false

variable [GoFloat F]

def errorsStep (settings : Settings F) (s : Shared) (agent : Agent F) : Shared × BeforePc F :=
  match (chaosFor agent).bind (·.errors) with
  | none => (s, .connection)
  | some e =>
    if stageRuns settings e.rate e.failFirst (hasConfiguredError e) then
      if stageGlobal e.rate e.failFirst then
        let r := globalAllows settings s (chaosKey agent) agent.name (bytes "error")
        (r.1, if r.2 then .errorTrigger { e with rate := GoFloat.ofInt 1 } else .connection)
      else (s, .errorTrigger e)
    else (s, .connection)

def connectionStep (settings : Settings F) (s : Shared) (agent : Agent F) : Shared × BeforePc F :=
  match (chaosFor agent).bind (·.connection) with
  | none => (s, .done none)
  | some c =>
    if stageRuns settings c.rate c.failFirst (decide (c.mode ≠ "")) then
      if stageGlobal c.rate c.failFirst then
        let r := globalAllows settings s (chaosKey agent) agent.name (bytes "connection")
        (r.1, if r.2 then .connectionTrigger { c with rate := GoFloat.ofInt 1 } else .done none)
      else (s, .connectionTrigger c)
    else (s, .done none)

def beforeStep (settings : Settings F) (ch : Choice F) (s : Shared) (agent : Agent F) :
    BeforePc F → Shared × BeforePc F
  | .clock rl => (s, .limit rl ch.now)
  | .limit rl now =>
    let r := checkRateLimit s (chaosKey agent) rl now
    (r.1, match r.2 with | some err => .done (some err) | none => .errors)
  | .errors => errorsStep settings s agent
  | .errorTrigger e =>
    let r := shouldTrigger ch s (chaosKey agent) e.rate e.failFirst .error
    (r.1, if r.2 then .done (some (errorFault settings ch e)) else .connection)
  | .connection => connectionStep settings s agent
  | .connectionTrigger c =>
    let r := shouldTrigger ch s (chaosKey agent) c.rate c.failFirst .connection
    (r.1, .done (if r.2 then some (connectionFault c) else none))
  | .done err => (s, .done err)

def afterStep (settings : Settings F) (ch : Choice F) (s : Shared) (agent : Agent F) :
    Shared × Option Int :=
  match (chaosFor agent).bind (·.latency) with
  | none => (s, none)
  | some l =>
    let r := globalAllows settings s (chaosKey agent) agent.name (bytes "latency")
    (r.1, if r.2 then some (sampleLatency ch l) else none)

def resetAgent (s : Shared) (tenantID name : Bytes) : Shared :=
  let key := scopeKey tenantID name
  ⟨{ buckets := s.injector.buckets.erase key
     counts := fun stage => (s.injector.counts stage).erase key
     globalCounts :=
      keepIf (fun counterKey _ => !(key ++ [0]).isPrefixOf counterKey) s.injector.globalCounts },
    s.history ++ [(key, .reset)]⟩

def Task.next (settings : Settings F) (ch : Choice F) (s : Shared) : Task F → Shared × Task F
  | .before agent pc =>
    ((beforeStep settings ch s agent pc).1, .before agent (beforeStep settings ch s agent pc).2)
  | .after agent none =>
    ((afterStep settings ch s agent).1, .after agent (some (afterStep settings ch s agent).2))
  | .after agent (some delay) => (s, .after agent (some delay))
  | .reset agent false => (resetAgent s agent.tenantID agent.name, .reset agent true)
  | .reset agent true => (s, .reset agent true)

def chaos (settings : Settings F) : System Shared (Task F) (Call F) (Choice F) :=
  ⟨Task.start, Task.next settings⟩

def newChaosInjector : ChaosInjector := ⟨∅, fun _ => ∅, ∅⟩

def opened : Pool Shared (Task F) := ⟨⟨newChaosInjector, []⟩, []⟩

end

end MockAgents.Engine
