import MockAgents.Lib.Keys
import MockAgents.Recording.Replay
/-!
# What a key determines

With an injective digest a hash determines the method and the framed path and body of its
request.  A path with a newline can be framed in two ways; without one the frame determines both
parts.
-/

namespace MockAgents.Recording

open Lib Lib.Utf8 Lib.Strconv

variable {N : Type} {env : Env N}
variable {b b' path : Bytes}

/-! ## Digests -/

theorem hexDigit_inj : ∀ a < 16, ∀ b < 16, hexDigit a = hexDigit b → a = b := by
  decide

theorem hexEncode_injective : Function.Injective hexEncode := by
  intro a b h
  have hdigits := encode_injective h
  clear h
  induction a generalizing b with
  | nil =>
    cases b with
    | nil => rfl
    | cons y b => simp at hdigits
  | cons x a ih =>
    cases b with
    | nil => simp at hdigits
    | cons y b =>
      obtain ⟨hpair, hrest⟩ := List.append_inj hdigits rfl
      have hx := x.toNat_lt
      have hy := y.toNat_lt
      have hhigh := hexDigit_inj _ (by omega) _ (by omega) (List.cons.inj hpair).1
      have hlow := hexDigit_inj _ (by omega) _ (by omega) (List.cons.inj (List.cons.inj hpair).2).1
      have hxy : x = y := UInt8.toNat_inj.mp (by omega)
      rw [hxy, ih hrest]

theorem coerce_hexEncode (b : Bytes) : coerce (hexEncode b) = hexEncode b :=
  (coerce_eq_self_iff _).mpr (valid_encode _)

theorem hexEncode_ne_nil (h : b ≠ []) : hexEncode b ≠ [] := by
  cases b with
  | nil => exact absurd rfl h
  | cons x b => exact fun hnil => absurd (hexEncode_injective (hnil.trans rfl : _ = hexEncode [])) (by simp)

/-! ## Methods -/

theorem ClientRequest.newline_not_mem (r : ClientRequest) : 10 ∉ r.method := by
  intro h
  exact absurd (r.method_token 10 h).1 (by decide)

theorem ClientRequest.coerce_method (r : ClientRequest) : coerce r.method = r.method :=
  coerce_ascii fun b hb => UInt8.lt_trans (r.method_token b hb).2 (by decide)

theorem hashRequest_inj (hsha : Function.Injective env.sha256) {method method' path' body body' : Bytes}
    (hmethod : 10 ∉ method) (hmethod' : 10 ∉ method') :
    env.hashRequest method path body = env.hashRequest method' path' body' ↔
      method = method' ∧
        framed path (env.canonicalBody body) = framed path' (env.canonicalBody body') := by
  constructor
  · intro h
    have hframes := hsha (hexEncode_injective h)
    obtain ⟨rfl, hrest⟩ := Keys.first_inj hmethod hmethod' hframes
    exact ⟨rfl, congrArg (List.cons 10) hrest⟩
  · rintro ⟨rfl, hframes⟩
    rw [Env.hashRequest, Env.hashRequest, hframes]

/-! ## Frames -/

/-- A frame with the query is none without it. -/
theorem framed_hashPath_ne (r : ClientRequest) (hquery : env.hashPath r ≠ r.path) (canonical canonical' : Bytes) :
    framed (env.hashPath r) canonical ≠ framed r.path canonical' := by
  intro h
  unfold Env.hashPath at h hquery
  dsimp only at h hquery
  split at hquery
  · exact hquery rfl
  next hq =>
    rw [if_neg hq] at h
    simp [framed, List.append_assoc] at h

/-! ## Bodies -/

/-- The decoder gives back the value of a canonical text.  A map that is decoded is held in the
order of its keys. -/
structure Env.RoundTrips (env : Env N) : Prop where
  empty : env.unmarshal [] = none
  canonical : ∀ {b : Bytes} {v : JsonValue N}, env.unmarshal b = some v →
    env.unmarshal (env.canonicalJSON v) = some v

theorem Env.RoundTrips.decoded_canonicalBody (h : env.RoundTrips) {v : JsonValue N}
    (hv : env.decoded b = some v) : env.decoded (env.canonicalBody b) = some v := by
  have hunmarshal : env.unmarshal b = some v := by
    unfold Env.decoded at hv
    split at hv
    · cases hv
    · exact hv
  have hback := h.canonical hunmarshal
  rw [Env.canonicalBody, hv, Option.map_some, Option.getD_some, Env.decoded, if_neg, hback]
  intro hnil
  rw [hnil, h.empty] at hback
  cases hback

/-- Bodies with the same canonical bytes have the same value, if any. -/
theorem Env.RoundTrips.decoded_eq (h : env.RoundTrips)
    (heq : env.canonicalBody b = env.canonicalBody b') : env.decoded b = env.decoded b' := by
  have htext : ∀ {x : Bytes}, env.decoded x = none → env.canonicalBody x = x := by
    intro x hx
    rw [Env.canonicalBody, hx]
    rfl
  cases hb : env.decoded b with
  | some v =>
    have hback := heq ▸ h.decoded_canonicalBody hb
    cases hb' : env.decoded b' with
    | some v' =>
      rw [h.decoded_canonicalBody hb'] at hback
      exact hback.symm
    | none =>
      rw [htext hb', hb'] at hback
      cases hback
  | none =>
    cases hb' : env.decoded b' with
    | some v' =>
      have hback := heq ▸ h.decoded_canonicalBody hb'
      rw [htext hb, hb] at hback
      cases hback
    | none => rfl

/-- The same canonical body is the same modulo any fields. -/
theorem Env.RoundTrips.canonical_eq (h : env.RoundTrips) (m : Matcher)
    (heq : env.canonicalBody b = env.canonicalBody b') : m.canonical env b = m.canonical env b' := by
  unfold Matcher.canonical Matcher.strip
  rw [h.decoded_eq heq]
  split
  · split
    · rfl
    · exact heq
  · exact heq

end MockAgents.Recording
