import MockAgents.Lib.Maps
import MockAgents.Tenancy.Keys
/-!
# The auth cache

`auth_cache.go`: resolutions that succeeded and plaintexts that failed, both under the
digest of the plaintext and both with an expiry.  Every operation takes the time at
which it runs; a loop over a map runs in any order.  Times are in nanoseconds.
-/

namespace MockAgents.Tenancy

open Lib Lib.Maps

structure AuthCacheEntry where
  principal : Principal
  expiry : Int
deriving DecidableEq, Repr

structure AuthCache (D : Type) where
  entries : AList fun _ : D => AuthCacheEntry
  ttl : Int
  maxSize : Int
  negatives : AList fun _ : D => Int

def second : Int := 1000000000

def negativeTTL : Int := 30 * second

/-- The loop of an eviction: an expired entry if there is one, else any entry. -/
def evictOne {D α : Type} [DecidableEq D] (sh : Shuffle) (expired : α → Bool)
    (m : AList fun _ : D => α) : AList fun _ : D => α :=
  match (sh.list m.entries).find? fun e => expired e.2 with
  | some e => m.erase e.1
  | none =>
    match sh.list m.entries with
    | e :: _ => m.erase e.1
    | [] => m

def makeRoom {D α : Type} [DecidableEq D] (sh : Shuffle) (expired : α → Bool) (maxSize : Int)
    (m : AList fun _ : D => α) (k : D) : AList fun _ : D => α :=
  if m.lookup k = none && decide (maxSize ≤ m.keys.length) then evictOne sh expired m else m

namespace AuthCache

variable {D : Type}

def newAuthCache (ttl maxSize : Int) : AuthCache D :=
  ⟨∅, if ttl ≤ 0 then 300 * second else ttl, if maxSize ≤ 0 then 1024 else maxSize, ∅⟩

def invalidate (cache : AuthCache D) : AuthCache D := { cache with entries := ∅, negatives := ∅ }

variable [DecidableEq D] {H : Type} (c : Crypto H D)

/-- `Get`; an expired entry is dropped. -/
def get (now : Int) (cache : AuthCache D) (plaintext : Bytes) : AuthCache D × Option Principal :=
  if plaintext = [] then (cache, none)
  else
    match cache.entries.lookup (c.hashKey plaintext) with
    | none => (cache, none)
    | some e =>
      if e.expiry < now then
        ({ cache with entries := cache.entries.erase (c.hashKey plaintext) }, none)
      else (cache, some e.principal)

def set (sh : Shuffle) (now : Int) (cache : AuthCache D) (plaintext : Bytes)
    (principal : Principal) : AuthCache D :=
  if plaintext = [] then cache
  else
    let k := c.hashKey plaintext
    let entries := makeRoom sh (fun e => decide (e.expiry < now)) cache.maxSize cache.entries k
    { cache with entries := entries.insert k ⟨principal, now + cache.ttl⟩ }

def isNegative (now : Int) (cache : AuthCache D) (plaintext : Bytes) : Bool :=
  if plaintext = [] then false
  else
    match cache.negatives.lookup (c.hashKey plaintext) with
    | none => false
    | some exp => decide (now < exp)

def setNegative (sh : Shuffle) (now : Int) (cache : AuthCache D) (plaintext : Bytes) :
    AuthCache D :=
  if plaintext = [] then cache
  else
    let k := c.hashKey plaintext
    let negatives := makeRoom sh (fun exp => decide (exp < now)) cache.maxSize cache.negatives k
    { cache with negatives := negatives.insert k (now + negativeTTL) }

end AuthCache

end MockAgents.Tenancy
