import MockAgents.Quota.RateLimit
/-!
# What a token bucket admits

A request that is admitted takes a token out of what the bucket held and was refilled with.
Summed up over the requests of an interval, that bounds their number.
-/

namespace MockAgents.Quota

open List Limiter

variable {cfg : RateConfig} {now : ℚ}

theorem one_le_capacityFor (cfg : RateConfig) : 1 ≤ capacityFor cfg := by
  unfold capacityFor
  split
  next h => exact_mod_cast h
  · exact le_max_left 1 cfg.ratePerSec

/-! ## One request -/

structure Bucket.Bounded (cfg : RateConfig) (b : Bucket) : Prop where
  nonneg : 0 ≤ b.tokens
  le_capacity : b.tokens ≤ capacityFor cfg

theorem Bucket.Bounded.refill (hrate : 0 < cfg.ratePerSec) {b : Bucket} (h : b.Bounded cfg) (now : ℚ) :
    (b.refill cfg now).Bounded cfg := by
  unfold Bucket.refill
  split
  next helapsed =>
    have hgain : 0 ≤ (now - b.last) * cfg.ratePerSec := (mul_pos helapsed hrate).le
    have hcap := one_le_capacityFor cfg
    refine ⟨le_min (by linarith) ?_, min_le_left _ _⟩
    have := h.nonneg
    linarith
  · exact h

/-- The refill adds no more than the rate allows. -/
theorem Bucket.refill_spec (cfg : RateConfig) {b : Bucket} (hlast : b.last ≤ now) :
    (b.refill cfg now).last = now ∧
      (b.refill cfg now).tokens ≤ b.tokens + cfg.ratePerSec * (now - b.last) := by
  unfold Bucket.refill
  split
  · refine ⟨rfl, (min_le_right _ _).trans ?_⟩
    rw [mul_comm]
  next helapsed =>
    have heq : b.last = now := by linarith
    exact ⟨heq, by rw [heq, sub_self, mul_zero, add_zero]⟩

def cost (admitted : Bool) : ℚ := if admitted then 1 else 0

/-- A request takes its token out of the refilled bucket. -/
theorem takeToken_spec (hrate : 0 < cfg.ratePerSec) {bucket : Option Bucket}
    (hbounded : ∀ b ∈ bucket, b.Bounded cfg) (now : ℚ) :
    (takeToken cfg bucket now).1.Bounded cfg ∧
      (takeToken cfg bucket now).1.tokens + cost (takeToken cfg bucket now).2.1 =
        ((bucket.getD ⟨capacityFor cfg, now⟩).refill cfg now).tokens ∧
      (takeToken cfg bucket now).1.last =
        ((bucket.getD ⟨capacityFor cfg, now⟩).refill cfg now).last := by
  have hcap := one_le_capacityFor cfg
  have hb : (bucket.getD ⟨capacityFor cfg, now⟩).Bounded cfg := by
    cases bucket with
    | none => exact ⟨by show 0 ≤ capacityFor cfg; linarith, le_rfl⟩
    | some b => exact hbounded b rfl
  have hrefill := hb.refill hrate now
  unfold takeToken
  dsimp only
  split
  next htoken =>
    refine ⟨⟨by show 0 ≤ _ - 1; linarith, ?_⟩, sub_add_cancel _ _, rfl⟩
    have := hrefill.le_capacity
    linarith
  · exact ⟨hrefill, add_zero _, rfl⟩

/-- Where the clock has not gone back: what a request leaves, and what it takes, was in the
bucket. -/
theorem takeToken_spent (hrate : 0 < cfg.ratePerSec) {bucket : Option Bucket}
    (hbounded : ∀ b ∈ bucket, b.Bounded cfg) (hlast : ∀ b ∈ bucket, b.last ≤ now) :
    (takeToken cfg bucket now).1.last = now ∧
      (takeToken cfg bucket now).1.tokens + cost (takeToken cfg bucket now).2.1 ≤ capacityFor cfg ∧
      ∀ b ∈ bucket, (takeToken cfg bucket now).1.tokens + cost (takeToken cfg bucket now).2.1 ≤
        b.tokens + cfg.ratePerSec * (now - b.last) := by
  obtain ⟨-, htokens, hlast'⟩ := takeToken_spec hrate hbounded now
  rw [htokens, hlast']
  cases bucket with
  | none => exact ⟨by simp [Bucket.refill], by simp [Bucket.refill], by simp⟩
  | some b =>
    obtain ⟨hnow, hgain⟩ := Bucket.refill_spec cfg (hlast b rfl)
    refine ⟨hnow, ((hbounded b rfl).refill hrate now).le_capacity, ?_⟩
    rintro _ ⟨⟩
    exact hgain

/-! ## Tenants -/

namespace Limiter

variable {e e' : Limiter} {T : String} {reqs : List (String × ℚ)} {hi : ℚ}

@[simp] theorem allowRequest_effective (e : Limiter) (tenantID : String) (now : ℚ) (T : String) :
    (e.allowRequest tenantID now).1.effective T = e.effective T := by
  unfold allowRequest
  dsimp only
  split <;> rfl

theorem allowRequest_other {tenantID : String} (h : tenantID ≠ T) (now : ℚ) :
    (e.allowRequest tenantID now).1.buckets T = e.buckets T := by
  unfold allowRequest
  dsimp only
  split
  · rfl
  · exact Function.update_of_ne h.symm _ _

theorem allowRequest_congr (hcfg : e.effective T = e'.effective T) (hbucket : e.buckets T = e'.buckets T)
    (now : ℚ) : (e.allowRequest T now).2 = (e'.allowRequest T now).2 ∧
      (e.allowRequest T now).1.buckets T = (e'.allowRequest T now).1.buckets T := by
  simp only [allowRequest, hcfg, hbucket]
  split
  · exact ⟨rfl, hbucket⟩
  · exact ⟨rfl, by simp⟩

/-- A tenant's answers depend on its own requests only. -/
theorem answers_filter (hcfg : e.effective T = e'.effective T) (hbucket : e.buckets T = e'.buckets T) :
    answers T e reqs = answers T e' (reqs.filter fun req => req.1 = T) := by
  induction reqs generalizing e e' with
  | nil => rfl
  | cons req reqs ih =>
    obtain ⟨tenantID, now⟩ := req
    by_cases h : tenantID = T
    · subst h
      obtain ⟨hanswer, hnext⟩ := allowRequest_congr hcfg hbucket now
      rw [filter_cons_of_pos (by simp)]
      simp only [answers, if_true, hanswer]
      rw [ih (by simpa using hcfg) hnext]
    · rw [filter_cons_of_neg (by simpa using h)]
      simp only [answers, h, if_false]
      exact ih (by simpa using hcfg) (by rw [allowRequest_other h, hbucket])

theorem mem_answers {x : ℚ × Bool × ℚ} (h : x ∈ answers T e reqs) : (T, x.1) ∈ reqs := by
  induction reqs generalizing e with
  | nil => simp [answers] at h
  | cons req reqs ih =>
    simp only [answers] at h
    split at h
    next heq =>
      rcases mem_cons.mp h with rfl | h
      · exact heq ▸ mem_cons_self
      · exact mem_cons_of_mem _ (ih h)
    · exact mem_cons_of_mem _ (ih h)

def Bounded (e : Limiter) : Prop := ∀ T, ∀ b ∈ e.buckets T, b.Bounded (e.effective T)

theorem Bounded.allowRequest (h : e.Bounded) (tenantID : String) (now : ℚ) :
    (e.allowRequest tenantID now).1.Bounded := by
  intro T b hb
  rw [allowRequest_effective]
  by_cases heq : tenantID = T
  · subst heq
    simp only [Limiter.allowRequest] at hb
    split at hb
    · exact h tenantID b hb
    next hlimited =>
      obtain rfl : _ = b := by simpa using hb
      exact (takeToken_spec (not_le.mp (not_or.mp hlimited).2) (h tenantID) now).1
  · rw [allowRequest_other heq] at hb
    exact h T b hb

theorem Bounded.run (h : e.Bounded) (reqs : List (String × ℚ)) : (e.run reqs).Bounded :=
  foldlRecOn reqs _ h fun _ h req _ => h.allowRequest req.1 req.2

theorem run_effective (e : Limiter) (reqs : List (String × ℚ)) (T : String) :
    (e.run reqs).effective T = e.effective T := by
  induction reqs generalizing e with
  | nil => rfl
  | cons req reqs ih => exact (ih _).trans (allowRequest_effective e req.1 req.2 T)

/-! ## Intervals -/

theorem admitted_cons (tenantID : String) (now : ℚ) (lo hi : ℚ) :
    (admitted T e ((tenantID, now) :: reqs) lo hi : ℚ) =
      admitted T (e.allowRequest tenantID now).1 reqs lo hi +
        if tenantID = T ∧ lo ≤ now ∧ now ≤ hi then cost (e.allowRequest tenantID now).2.1 else 0 := by
  have hcons : answers T e ((tenantID, now) :: reqs) =
      if tenantID = T then (now, (e.allowRequest tenantID now).2) ::
        answers T (e.allowRequest tenantID now).1 reqs
      else answers T (e.allowRequest tenantID now).1 reqs := rfl
  rw [admitted, hcons, admitted]
  by_cases h : tenantID = T
  · simp only [h, if_true, true_and, countP_cons, Nat.cast_add, cost]
    cases (e.allowRequest T now).2.1 <;> simp
  · simp [h]

theorem admitted_late {lo : ℚ} (hlate : ∀ req ∈ reqs, hi < req.2) : admitted T e reqs lo hi = 0 := by
  refine countP_eq_zero.mpr fun x hx => ?_
  have := hlate _ (mem_answers hx)
  simp [not_le.mpr this]

/-- The tenant can spend no more than `R` and what is refilled after `lo`: either no request has
been counted, or the last one left too few tokens for more. -/
def Room (e : Limiter) (T : String) (lo hi R : ℚ) : Prop :=
  capacityFor (e.effective T) ≤ R ∨ ∃ b, e.buckets T = some b ∧ lo ≤ b.last ∧ b.last ≤ hi ∧
    b.tokens ≤ R + (e.effective T).ratePerSec * (b.last - lo)

variable {lo R : ℚ}

theorem Room.nonneg (h : e.Room T lo hi R) (hrate : 0 < (e.effective T).ratePerSec)
    (hbounded : e.Bounded) (hhi : lo ≤ hi) : 0 ≤ R + (e.effective T).ratePerSec * (hi - lo) := by
  rcases h with hcap | ⟨b, hb, -, hlast, htokens⟩
  · have := one_le_capacityFor (e.effective T)
    have := mul_nonneg hrate.le (sub_nonneg.mpr hhi)
    linarith
  · have := (hbounded T b hb).nonneg
    have := mul_nonneg hrate.le (sub_nonneg.mpr hlast)
    linarith

/-- A request in the interval spends its token, and one before it finds nothing spent. -/
theorem Room.allowRequest (h : e.Room T lo hi R) (hT : T ≠ "")
    (hrate : 0 < (e.effective T).ratePerSec) (hbounded : e.Bounded)
    (hlast : ∀ b ∈ e.buckets T, b.last ≤ now) (hhi : now ≤ hi) :
    (∀ b ∈ (e.allowRequest T now).1.buckets T, b.last = now) ∧ (e.allowRequest T now).1.Room T lo hi
      (R - if lo ≤ now then cost (e.allowRequest T now).2.1 else 0) := by
  have hlimited : ¬ (T = "" ∨ (e.effective T).ratePerSec ≤ 0) := not_or.mpr ⟨hT, not_le.mpr hrate⟩
  obtain ⟨hnow, hcap', hspent⟩ := takeToken_spent hrate (hbounded T) hlast
  have hlimiter : e.allowRequest T now =
      ({ e with buckets := Function.update e.buckets T (some (takeToken (e.effective T) (e.buckets T) now).1) },
        (takeToken (e.effective T) (e.buckets T) now).2) := if_neg hlimited
  rw [Room, allowRequest_effective, hlimiter]
  dsimp only
  rw [Function.update_self]
  refine ⟨fun b hb => Option.some.inj hb ▸ hnow, ?_⟩
  rcases h with hcap | ⟨b, hb, hlo, -, htokens⟩
  · split
    next hlo =>
      have := mul_nonneg hrate.le (sub_nonneg.mpr hlo)
      refine .inr ⟨_, rfl, hlo.trans_eq hnow.symm, hnow.trans_le hhi, ?_⟩
      rw [hnow]
      linarith
    · exact .inl (hcap.trans_eq (sub_zero R).symm)
  · have hnow' := hlo.trans (hlast b hb)
    have := hspent b hb
    refine .inr ⟨_, rfl, hnow'.trans_eq hnow.symm, hnow.trans_le hhi, ?_⟩
    rw [if_pos hnow', hnow]
    linarith

/-- No interval admits more than there is room for.  By induction on the requests, with the room
that each of them leaves. -/
theorem admitted_le (hT : T ≠ "") (hrate : 0 < (e.effective T).ratePerSec) (hbounded : e.Bounded)
    (hlast : ∀ b ∈ e.buckets T, ∀ req ∈ reqs, b.last ≤ req.2)
    (hsorted : reqs.Pairwise fun r r' => r.2 ≤ r'.2) (hhi : lo ≤ hi) (hroom : e.Room T lo hi R) :
    (admitted T e reqs lo hi : ℚ) ≤ R + (e.effective T).ratePerSec * (hi - lo) := by
  induction reqs generalizing e R with
  | nil => simpa [admitted, answers] using hroom.nonneg hrate hbounded hhi
  | cons req reqs ih =>
    obtain ⟨tenantID, now⟩ := req
    have hsorted' := pairwise_cons.mp hsorted
    by_cases hlate : hi < now
    · have hall : ∀ req ∈ (tenantID, now) :: reqs, hi < req.2 :=
        forall_mem_cons.mpr ⟨hlate, fun req hreq => hlate.trans_le (hsorted'.1 req hreq)⟩
      rw [admitted_late hall]
      exact_mod_cast hroom.nonneg hrate hbounded hhi
    have hrate' : 0 < ((e.allowRequest tenantID now).1.effective T).ratePerSec := by simpa using hrate
    have hbounded' := hbounded.allowRequest tenantID now
    rw [admitted_cons, ← allowRequest_effective e tenantID now]
    by_cases h : tenantID = T
    · subst h
      obtain ⟨hlast', hroom'⟩ := hroom.allowRequest hT hrate hbounded
        (fun b hb => hlast b hb _ mem_cons_self) (not_lt.mp hlate)
      have hrest := ih hrate' hbounded' (fun b hb => hlast' b hb ▸ hsorted'.1) hsorted'.2 hroom'
      simp only [true_and, not_lt.mp hlate, and_true]
      linarith
    · simp only [h, false_and, if_false, add_zero]
      refine ih hrate' hbounded' ?_ hsorted'.2 ?_
      · rw [allowRequest_other h]
        exact fun b hb req hreq => hlast b hb req (mem_cons_of_mem _ hreq)
      · rwa [Room, allowRequest_effective, allowRequest_other h]

end Limiter

/-- **The token bucket of every limited tenant holds its bound**: requests admitted in an interval
are within the capacity and what the interval refills, tokens stay within the capacity, and a
tenant's answers are those to its own requests alone. -/
theorem rate_limited (defaults : RateConfig) (overrides : String → Option RateConfig)
    (reqs : List (String × ℚ)) (hclock : reqs.Pairwise fun r r' => r.2 ≤ r'.2) :
    let e := newLimiter defaults overrides
    (∀ T, T ≠ "" → 0 < (e.effective T).ratePerSec → ∀ lo d, 0 ≤ d →
      (admitted T e reqs lo (lo + d) : ℚ) ≤
        capacityFor (e.effective T) + (e.effective T).ratePerSec * d) ∧
    (∀ T, ∀ b ∈ (e.run reqs).buckets T, 0 ≤ b.tokens ∧ b.tokens ≤ capacityFor (e.effective T)) ∧
    ∀ T, answers T e reqs = answers T e (reqs.filter fun req => req.1 = T) := by
  intro e
  have hnew : e.Bounded := fun T b hb => by simp [e, newLimiter] at hb
  refine ⟨fun T hT hrate lo d hd => ?_, fun T b hb => ?_, fun T => answers_filter rfl rfl⟩
  · have := admitted_le hT hrate hnew (by simp [e, newLimiter]) hclock
      (le_add_of_nonneg_right hd : lo ≤ lo + d) (.inl le_rfl)
    rwa [add_sub_cancel_left] at this
  · have hbucket := hnew.run reqs T b hb
    rw [run_effective] at hbucket
    exact ⟨hbucket.nonneg, hbucket.le_capacity⟩

/-- Three requests at once, with room for two. -/
theorem rate_limited_burst :
    let e := newLimiter ⟨1, 2⟩ fun _ => none
    admitted "acme" e [("acme", 0), ("acme", 0), ("acme", 0)] 0 (0 + 0) = 2 ∧
      ((admitted "acme" e [("acme", 0), ("acme", 0), ("acme", 0)] 0 (0 + 0) : Nat) : ℚ) ≤ 2 + 1 * 0 := by
  refine ⟨by decide +kernel, ?_⟩
  exact (rate_limited ⟨1, 2⟩ (fun _ => none) [("acme", 0), ("acme", 0), ("acme", 0)] (by simp)).1 "acme"
    (by decide) (by decide +kernel) 0 0 le_rfl

/-- Without a rate every request is admitted, whatever the capacity. -/
theorem unlimited_exceeds :
    let e := newLimiter ⟨0, 0⟩ fun _ => none
    capacityFor (e.effective "acme") + (e.effective "acme").ratePerSec * 0 <
      (admitted "acme" e [("acme", 0), ("acme", 0)] 0 (0 + 0) : Nat) := by
  decide +kernel

/-! ## Waiting -/

/-- A refused bucket holds its first token when the wait is over. -/
theorem takeToken_retry {bucket : Option Bucket} {t u : ℚ} (hrate : 0 < cfg.ratePerSec)
    (hlast : ∀ b ∈ bucket, b.last ≤ t) (hrefused : (takeToken cfg bucket t).2.1 = false) (hu : t ≤ u) :
    (takeToken cfg (some (takeToken cfg bucket t).1) u).2.1 = true ↔
      t + (takeToken cfg bucket t).2.2 ≤ u := by
  let b := (bucket.getD ⟨capacityFor cfg, t⟩).refill cfg t
  have hnow : b.last = t := (Bucket.refill_spec cfg (by cases bucket <;> simp_all)).1
  have hempty : b.tokens < 1 := by
    by_contra hfull
    simp [takeToken, b, not_lt.mp hfull] at hrefused
  have hwait : takeToken cfg bucket t = (b, false, (1 - b.tokens) / cfg.ratePerSec) :=
    if_neg (not_le.mpr hempty)
  have htaken : (takeToken cfg (some b) u).2.1 = true ↔ 1 ≤ (b.refill cfg u).tokens := by
    simp [takeToken, apply_ite]
  rw [hwait, htaken, Bucket.refill, hnow, ← le_sub_iff_add_le', div_le_iff₀ hrate]
  split
  · simp [one_le_capacityFor, add_comm]
  next hsame =>
    have hzero : u - t = 0 := by linarith
    simp [hzero]

theorem Limiter.run_others {e : Limiter} {T : String} {reqs : List (String × ℚ)}
    (h : ∀ req ∈ reqs, req.1 ≠ T) : (e.run reqs).buckets T = e.buckets T :=
  foldlRecOn (motive := fun e' : Limiter => e'.buckets T = e.buckets T) reqs _ rfl fun _ he req hreq =>
    (allowRequest_other (h req hreq) req.2).trans he

end MockAgents.Quota
