import Mathlib
/-!
# Request rates

`AllowRequest` of `quota.go`: one token bucket for each tenant.  Rates and tokens are exact,
and times are in seconds.
-/

namespace MockAgents.Quota

/-- The part of a quota that the rate limit reads. -/
structure RateConfig where
  ratePerSec : ℚ
  rateBurst : Int

structure Bucket where
  tokens : ℚ
  last : ℚ

structure Limiter where
  defaults : RateConfig
  overrides : String → Option RateConfig
  buckets : String → Option Bucket

def capacityFor (c : RateConfig) : ℚ := if 0 < c.rateBurst then c.rateBurst else max 1 c.ratePerSec

/-- The refill since the last check, clamped to the capacity. -/
def Bucket.refill (cfg : RateConfig) (b : Bucket) (now : ℚ) : Bucket :=
  if 0 < now - b.last then ⟨min (capacityFor cfg) (b.tokens + (now - b.last) * cfg.ratePerSec), now⟩
  else b

/-- A request of a limited tenant: its bucket, whether it is admitted, and when to retry.  A new
tenant starts with a full bucket. -/
def takeToken (cfg : RateConfig) (bucket : Option Bucket) (now : ℚ) : Bucket × Bool × ℚ :=
  let b := (bucket.getD ⟨capacityFor cfg, now⟩).refill cfg now
  if 1 ≤ b.tokens then ({ b with tokens := b.tokens - 1 }, true, 0)
  else (b, false, (1 - b.tokens) / cfg.ratePerSec)

namespace Limiter

def effective (e : Limiter) (tenantID : String) : RateConfig := (e.overrides tenantID).getD e.defaults

def allowRequest (e : Limiter) (tenantID : String) (now : ℚ) : Limiter × Bool × ℚ :=
  let cfg := e.effective tenantID
  if tenantID = "" ∨ cfg.ratePerSec ≤ 0 then (e, true, 0)
  else
    let (b, answer) := takeToken cfg (e.buckets tenantID) now
    ({ e with buckets := Function.update e.buckets tenantID (some b) }, answer)

def run (e : Limiter) (reqs : List (String × ℚ)) : Limiter :=
  reqs.foldl (fun e req => (e.allowRequest req.1 req.2).1) e

/-- The times of a tenant's requests, with their answers. -/
def answers (T : String) : Limiter → List (String × ℚ) → List (ℚ × Bool × ℚ)
  | _, [] => []
  | e, (tenantID, now) :: reqs =>
    let (e, answer) := e.allowRequest tenantID now
    if tenantID = T then (now, answer) :: answers T e reqs else answers T e reqs

/-- The number of a tenant's requests admitted between two times. -/
def admitted (T : String) (e : Limiter) (reqs : List (String × ℚ)) (lo hi : ℚ) : Nat :=
  (answers T e reqs).countP fun x => x.2.1 && decide (lo ≤ x.1) && decide (x.1 ≤ hi)

end Limiter

def newLimiter (defaults : RateConfig) (overrides : String → Option RateConfig) : Limiter :=
  ⟨defaults, overrides, fun _ => none⟩

end MockAgents.Quota
