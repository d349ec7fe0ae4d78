import MockAgents.Lib.Pool
/-!
# Monthly spend

`quota.go`: the spend counters of any number of replicas over one ledger.  A critical
section, a read of the clock and a call of the backend are one step each; the clock and the
outcome of a backend call are the environment's.  Amounts are exact.  The months and amounts
of the `AddSpend` calls are recorded beside the state.
-/

namespace MockAgents.Quota

open Lib

/-- The part of a quota that the spend cap reads. -/
structure Config where
  monthlySpendUSD : ℚ
deriving DecidableEq

structure Counter where
  month : String
  usd : ℚ
  expiry : Int
  unsynced : ℚ
deriving DecidableEq

/-- The zero `time.Time`.  Times are in nanoseconds since the epoch. -/
def zeroTime : Int := -62135596800000000000

def spendCacheTTL : Int := 5000000000

structure Enforcer where
  defaults : Config
  overrides : String → Option Config
  spendCache : String → Option Counter
  /-- whether there is a backend -/
  spendBackend : Bool

namespace Enforcer

def effective (e : Enforcer) (tenantID : String) : Config :=
  (e.overrides tenantID).getD e.defaults

def newCounter (month : String) : Counter := ⟨month, 0, zeroTime, 0⟩

/-- `counterForMonthLocked`: a counter of another month is rolled over. -/
def counterForMonth (e : Enforcer) (tenantID month : String) : Counter :=
  match e.spendCache tenantID with
  | none => newCounter month
  | some c => if c.month = month then c else newCounter month

/-- The end of a critical section: the counter is in the cache with its changes. -/
def store (e : Enforcer) (tenantID : String) (c : Counter) : Enforcer :=
  { e with spendCache := Function.update e.spendCache tenantID (some c) }

/-- `AddSpend` takes the unsynced spend of the month along. -/
def claim (e : Enforcer) (tenantID month : String) : Enforcer × ℚ :=
  let c := e.counterForMonth tenantID month
  (e.store tenantID { c with unsynced := 0 }, c.unsynced)

/-- The last critical section of `AddSpend`, after the backend's answer. -/
def settle (e : Enforcer) (now : Int) (tenantID month : String) (usd pending : ℚ)
    (total : Option ℚ) : Enforcer :=
  let c := e.counterForMonth tenantID month
  e.store tenantID <|
    match total with
    | some total => { c with usd := total + c.unsynced, expiry := now + spendCacheTTL }
    | none => { c with unsynced := c.unsynced + (usd + pending), usd := c.usd + usd }

def bump (e : Enforcer) (tenantID month : String) (usd : ℚ) : Enforcer :=
  let c := e.counterForMonth tenantID month
  e.store tenantID { c with usd := c.usd + usd }

/-- The first critical section of `currentSpend`, with the total if the cache is fresh. -/
def look (e : Enforcer) (now : Int) (tenantID month : String) : Enforcer × Option ℚ :=
  let c := e.counterForMonth tenantID month
  (e.store tenantID c, if !e.spendBackend || decide (now < c.expiry) then some c.usd else none)

/-- The last critical section of `currentSpend`: a failed read serves the last known total. -/
def refresh (e : Enforcer) (now : Int) (tenantID month : String) (total : Option ℚ) :
    Enforcer × ℚ :=
  let c := e.counterForMonth tenantID month
  let c :=
    match total with
    | some total => { c with usd := total + c.unsynced, expiry := now + spendCacheTTL }
    | none => c
  (e.store tenantID c, c.usd)

end Enforcer

/-! ## Calls -/

/-- An amount that an `AddSpend` adds, under the month it read. -/
structure Added (n : Nat) where
  replica : Fin n
  tenantID : String
  month : String
  usd : ℚ
deriving DecidableEq

structure Shared (n : Nat) where
  replicas : Fin n → Enforcer
  ledger : String → String → ℚ
  added : List (Added n)

/-- What `currentSpend` is called for. -/
inductive Purpose where
  | check
  | usage (month : String)
deriving DecidableEq

inductive Result where
  | none
  | checked (under : Bool)
  | usage (month : String) (spendUSD : ℚ)
deriving DecidableEq

inductive Task (n : Nat) where
  /-- `AddSpend` before `monthKey` -/
  | add (r : Fin n) (tenantID : String) (usd : ℚ)
  | claim (r : Fin n) (tenantID month : String) (usd : ℚ)
  /-- before the backend's `AddSpend` -/
  | write (r : Fin n) (tenantID month : String) (usd pending : ℚ)
  /-- with the backend's answer -/
  | settle (r : Fin n) (tenantID month : String) (usd pending : ℚ) (total : Option ℚ)
  | bump (r : Fin n) (tenantID month : String) (usd : ℚ)
  | check (r : Fin n) (tenantID : String)
  | usage (r : Fin n) (tenantID : String)
  /-- `currentSpend` before `monthKey` -/
  | current (r : Fin n) (tenantID : String) (purpose : Purpose)
  | look (r : Fin n) (tenantID month : String) (purpose : Purpose)
  /-- before the backend's `GetSpend` -/
  | fetch (r : Fin n) (tenantID month : String) (purpose : Purpose)
  | refresh (r : Fin n) (tenantID month : String) (purpose : Purpose) (total : Option ℚ)
  | returned (result : Result)
deriving DecidableEq

inductive Call (n : Nat) where
  | addSpend (r : Fin n) (tenantID : String) (usd : ℚ)
  | checkSpend (r : Fin n) (tenantID : String)
  | usage (r : Fin n) (tenantID : String)
deriving DecidableEq

/-- What the environment chooses for a step: the time, and whether the backend fails. -/
structure Choice where
  now : Int
  fails : Bool
deriving DecidableEq

/-- `now().UTC().Format("2006-01")`. -/
structure Env where
  monthKey : Int → String

variable {n : Nat}

def Task.start : Call n → Task n
  | .addSpend r tenantID usd =>
    if tenantID = "" || usd ≤ 0 then .returned .none else .add r tenantID usd
  | .checkSpend r tenantID => if tenantID = "" then .returned (.checked true) else .check r tenantID
  | .usage r tenantID => .usage r tenantID

/-- What the caller of `currentSpend` makes of the total; the configuration does not change. -/
def Purpose.result (e : Enforcer) (tenantID : String) (total : ℚ) : Purpose → Result
  | .check => .checked (total < (e.effective tenantID).monthlySpendUSD)
  | .usage month => .usage month total

namespace Shared

def put (s : Shared n) (r : Fin n) (e : Enforcer) : Shared n :=
  { s with replicas := Function.update s.replicas r e }

/-- The backend's `AddSpend`: an atomic increment, or an error that changes nothing. -/
def addSpend (s : Shared n) (fails : Bool) (tenantID month : String) (usd : ℚ) :
    Shared n × Option ℚ :=
  if fails then (s, none)
  else
    let total := s.ledger tenantID month + usd
    ({ s with
        ledger := Function.update s.ledger tenantID
          (Function.update (s.ledger tenantID) month total) }, some total)

def getSpend (s : Shared n) (fails : Bool) (tenantID month : String) : Option ℚ :=
  if fails then none else some (s.ledger tenantID month)

end Shared

def Task.next (env : Env) (c : Choice) (s : Shared n) : Task n → Shared n × Task n
  | .add r tenantID usd =>
    let month := env.monthKey c.now
    ({ s with added := s.added ++ [⟨r, tenantID, month, usd⟩] },
      if (s.replicas r).spendBackend then .claim r tenantID month usd
      else .bump r tenantID month usd)
  | .claim r tenantID month usd =>
    let (e, pending) := (s.replicas r).claim tenantID month
    (s.put r e, .write r tenantID month usd pending)
  | .write r tenantID month usd pending =>
    let (s, total) := s.addSpend c.fails tenantID month (usd + pending)
    (s, .settle r tenantID month usd pending total)
  | .settle r tenantID month usd pending total =>
    (s.put r ((s.replicas r).settle c.now tenantID month usd pending total), .returned .none)
  | .bump r tenantID month usd =>
    (s.put r ((s.replicas r).bump tenantID month usd), .returned .none)
  | .check r tenantID =>
    if ((s.replicas r).effective tenantID).monthlySpendUSD ≤ 0 then (s, .returned (.checked true))
    else (s, .current r tenantID .check)
  | .usage r tenantID => (s, .current r tenantID (.usage (env.monthKey c.now)))
  | .current r tenantID purpose => (s, .look r tenantID (env.monthKey c.now) purpose)
  | .look r tenantID month purpose =>
    let (e, total) := (s.replicas r).look c.now tenantID month
    (s.put r e, match total with
      | some total => .returned (purpose.result e tenantID total)
      | none => .fetch r tenantID month purpose)
  | .fetch r tenantID month purpose =>
    (s, .refresh r tenantID month purpose (s.getSpend c.fails tenantID month))
  | .refresh r tenantID month purpose total =>
    let (e, total) := (s.replicas r).refresh c.now tenantID month total
    (s.put r e, .returned (purpose.result e tenantID total))
  | .returned result => (s, .returned result)

def quota (env : Env) (n : Nat) : System (Shared n) (Task n) (Call n) Choice :=
  ⟨Task.start, Task.next env⟩

def opened (config : Fin n → Config × (String → Option Config)) (backend : Bool) :
    Pool (Shared n) (Task n) :=
  ⟨⟨fun r => ⟨(config r).1, (config r).2, fun _ => none, backend⟩, fun _ _ => 0, []⟩, []⟩

end MockAgents.Quota
