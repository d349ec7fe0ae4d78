import MockAgents.Lib.Strings
import Mathlib
/-!
# The address of a client

`X-Forwarded-For` is walked from the right, and only behind a trusted peer, so what a
client writes in front of the hops of the proxies does not reach the result.
-/

namespace MockAgents.Tenancy

open Lib Lib.Strings List

/-- The functions of `net` and `net/netip`, over addresses and prefixes. -/
structure Netip (A P : Type) where
  splitHostPort : Bytes → Option Bytes
  parseAddr : Bytes → Option A
  isValid : A → Bool
  unmap : A → A
  contains : P → A → Bool
  string : A → Bytes

/-- What is read of a request: its peer and the values of `X-Forwarded-For` in their order. -/
structure PeerRequest where
  remoteAddr : Bytes
  forwardedFor : List Bytes

def PeerRequest.hops (r : PeerRequest) : List Bytes :=
  r.forwardedFor.flatMap fun v => ((split v [44]).map trimSpace).filter (· ≠ [])

variable {A P : Type}

namespace Netip

variable (n : Netip A P) (trusted : Option (List P))

def isTrusted (ip : A) : Bool :=
  match trusted with
  | none => false
  | some prefixes => n.isValid ip && prefixes.any (n.contains · (n.unmap ip))

def hostOf (addr : Bytes) : Bytes :=
  match n.splitHostPort addr with
  | some host => host
  | none => (addr.dropWhile fun b => b = 91 ∨ b = 93).rdropWhile fun b => b = 91 ∨ b = 93

/-- The loop of `FromRequest`, over the hops from the right. -/
def firstUntrusted : List Bytes → Option A
  | [] => none
  | hop :: rest =>
    match n.parseAddr (n.hostOf hop) with
    | none => firstUntrusted rest
    | some a => if n.isTrusted trusted a then firstUntrusted rest else some a

def trustsPeer (r : PeerRequest) : Bool :=
  (n.parseAddr (n.hostOf r.remoteAddr)).any (n.isTrusted trusted)

def fromRequest (r : PeerRequest) : Bytes :=
  if n.trustsPeer trusted r then
    match n.firstUntrusted trusted r.hops.reverse with
    | some a => n.string (n.unmap a)
    | none => n.hostOf r.remoteAddr
  else n.hostOf r.remoteAddr

/-- The address of a hop that names one which is not trusted. -/
def untrusted (hop : Bytes) : Option A :=
  (n.parseAddr (n.hostOf hop)).filter fun a => !n.isTrusted trusted a

theorem firstUntrusted_eq (hops : List Bytes) :
    n.firstUntrusted trusted hops = hops.findSome? (n.untrusted trusted) := by
  induction hops with
  | nil => rfl
  | cons hop rest ih =>
    rw [firstUntrusted, findSome?_cons, untrusted]
    cases n.parseAddr (n.hostOf hop) with
    | none => exact ih
    | some a => cases htrusted : n.isTrusted trusted a <;> simp [Option.filter, htrusted, ih]

/-- The walk ends in a suffix of the hops that has an address to give. -/
theorem fromRequest_suffix {r : PeerRequest} (hpeer : n.trustsPeer trusted r = true)
    {front suffix : List Bytes} (hhops : r.hops = front ++ suffix) {a : A}
    (ha : suffix.reverse.findSome? (n.untrusted trusted) = some a) :
    n.fromRequest trusted r = n.string (n.unmap a) := by
  rw [fromRequest, if_pos hpeer, firstUntrusted_eq, hhops, reverse_append,
    findSome?_append, ha, Option.some_or]

/-- Without trust in the peer its address is the result, and behind a trusted peer the last
untrusted address of a suffix of the hops, whatever stands in front of the suffix. -/
theorem client_not_forged :
    (∀ r, n.trustsPeer trusted r = false → n.fromRequest trusted r = n.hostOf r.remoteAddr) ∧
    ∀ r r' front front' suffix, n.trustsPeer trusted r = true → n.trustsPeer trusted r' = true →
      r.hops = front ++ suffix → r'.hops = front' ++ suffix →
      (∃ hop ∈ suffix, n.untrusted trusted hop ≠ none) →
      n.fromRequest trusted r' = n.fromRequest trusted r ∧
        ∃ behind hop post a, suffix = behind ++ hop :: post ∧ n.untrusted trusted hop = some a ∧
          (∀ g ∈ post, n.untrusted trusted g = none) ∧
          n.fromRequest trusted r = n.string (n.unmap a) := by
  refine ⟨fun r hpeer => by rw [fromRequest, hpeer, if_neg Bool.false_ne_true], ?_⟩
  intro r r' front front' suffix hpeer hpeer' hhops hhops' ⟨hop, hmem, hsome⟩
  have hfound : suffix.reverse.findSome? (n.untrusted trusted) ≠ none := fun hnone =>
    hsome (findSome?_eq_none_iff.mp hnone hop (mem_reverse.mpr hmem))
  obtain ⟨a, ha⟩ := Option.ne_none_iff_exists'.mp hfound
  have hresult := n.fromRequest_suffix trusted hpeer hhops ha
  refine ⟨(n.fromRequest_suffix trusted hpeer' hhops' ha).trans hresult.symm, ?_⟩
  obtain ⟨post, hop, behind, hsplit, hhop, hpost⟩ := findSome?_eq_some_iff.mp ha
  refine ⟨behind.reverse, hop, post.reverse, a, ?_, hhop, ?_, hresult⟩
  · simpa using congrArg List.reverse hsplit
  · exact fun g hg => hpost g (mem_reverse.mp hg)

end Netip

end MockAgents.Tenancy
