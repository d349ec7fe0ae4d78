import MockAgents.Engine.ToolLoop
/-!
# Strict mode

What `strict.go` makes of a response under an enforced tool choice.  Only the first call is
compared with the choice, so the calls after it, and a name off the list, decide whether the
result is what was asked for.
-/

namespace MockAgents.Engine

open Lib Lib.Utf8 List

def ToolChoice.Fits (tc : ToolChoice) (name : Bytes) : Prop :=
  (tc.name = [] ∨ name = tc.name) ∧ (tc.allowedNames = [] ∨ name ∈ tc.allowedNames)

section
variable {A : Type} {k : ArgsCodec A} {tc : ToolChoice} {ctx : ToolContext} {resp : Response A}
  {name : Bytes}

/-- What a forcing tool choice promises of the calls. -/
structure ToolChoice.Honoured (tc : ToolChoice) (ctx : ToolContext) (calls : List (ToolCallSpec A)) :
    Prop where
  called : ctx.requestToolNames ++ ctx.agentTools ≠ [] → calls ≠ []
  fits : ∀ c ∈ calls, tc.Fits c.name
  capped : tc.parallelDisabled = true → calls.length ≤ 1

/-- The first call decides for all of them, and there is a name to make one up from. -/
structure ToolChoice.FirstDecides (tc : ToolChoice) (ctx : ToolContext) (calls : List (ToolCallSpec A)) :
    Prop where
  named : tc.name ≠ [] → tc.Fits tc.name
  declared : tc.name = [] → calls = [] → firstToolName tc ctx = [] →
    ctx.requestToolNames ++ ctx.agentTools = []
  rest : ∀ c ∈ calls.head?, tc.Fits c.name → tc.parallelDisabled = false → ∀ d ∈ calls, tc.Fits d.name

theorem honoured_singleton (call : ToolCallSpec A) : tc.Honoured ctx [call] ↔ tc.Fits call.name :=
  ⟨fun h => h.fits call mem_cons_self, fun h => ⟨by simp, by simpa using h, by simp⟩⟩

theorem applyRequired_calls (mode : StrictMode) : (applyRequired k tc mode ctx resp).1.toolCalls =
    (forceToolCall k tc mode ctx resp).1.toolCalls := by
  simp only [applyRequired]
  generalize (if ctx.wireProtocol = [] then ctx.agentProtocol else ctx.wireProtocol) = protocol
  split <;> rfl

theorem capParallel_calls : (capParallel tc .enforce resp).1.toolCalls =
    if tc.parallelDisabled then resp.toolCalls.take 1 else resp.toolCalls := by
  unfold capParallel
  cases tc.parallelDisabled with
  | false => simp
  | true =>
    by_cases hlen : 1 < resp.toolCalls.length
    · simp [hlen]
    · simp [hlen, take_of_length_le (Nat.le_of_not_lt hlen)]

theorem fits_head (hname : tc.name = []) (hallowed : tc.allowedNames ≠ []) :
    tc.Fits (tc.allowedNames.headD []) := by
  refine ⟨.inl hname, .inr ?_⟩
  cases h : tc.allowedNames with
  | nil => exact absurd h hallowed
  | cons n ns => exact mem_cons_self

theorem fits_firstToolName (hname : tc.name = []) : tc.Fits (firstToolName tc ctx) := by
  by_cases hallowed : tc.allowedNames = []
  · exact ⟨.inl hname, .inl hallowed⟩
  · have hhead : firstToolName tc ctx = tc.allowedNames.headD [] := by
      cases h : tc.allowedNames with
      | nil => exact absurd h hallowed
      | cons n ns => simp [firstToolName, h]
    exact hhead ▸ fits_head hname hallowed

section
variable (hnone : tc.none = false) (hreq : tc.required = true)
variable {call : ToolCallSpec A} {rest : List (ToolCallSpec A)}
include hnone hreq

theorem applyStrictToolChoice_calls :
    (applyStrictToolChoice k tc .enforce ctx resp).1.toolCalls =
      if tc.parallelDisabled then (forceToolCall k tc .enforce ctx resp).1.toolCalls.take 1
      else (forceToolCall k tc .enforce ctx resp).1.toolCalls := by
  simp only [applyStrictToolChoice, hnone, hreq, Bool.false_eq_true, reduceCtorEq, or_self, if_false,
    if_true, capParallel_calls, applyRequired_calls]

theorem applyStrictToolChoice_short (calls : List (ToolCallSpec A))
    (hforce : (forceToolCall k tc .enforce ctx resp).1.toolCalls = calls) (hlen : calls.length ≤ 1) :
    (applyStrictToolChoice k tc .enforce ctx resp).1.toolCalls = calls := by
  rw [applyStrictToolChoice_calls hnone hreq, hforce, take_of_length_le hlen, ite_self]

theorem honoured_nil_iff (hcalls : resp.toolCalls = []) :
    tc.Honoured ctx (applyStrictToolChoice k tc .enforce ctx resp).1.toolCalls ↔
      tc.FirstDecides ctx resp.toolCalls := by
  by_cases hname : tc.name = []
  · by_cases hfirst : firstToolName tc ctx = []
    · rw [applyStrictToolChoice_short hnone hreq [] (by simp [forceToolCall, hcalls, hname, hfirst])
        (Nat.zero_le 1), hcalls]
      constructor
      · intro h
        exact ⟨fun hn => absurd hname hn, fun _ _ _ => by_contra fun hd => h.called hd rfl, by simp⟩
      · intro h
        exact ⟨fun hd => absurd (h.declared hname rfl hfirst) hd, by simp, by simp⟩
    · rw [applyStrictToolChoice_short hnone hreq [⟨firstToolName tc ctx, k.empty, []⟩]
        (by simp [forceToolCall, hcalls, hname, hfirst, synthesize]) le_rfl, honoured_singleton, hcalls]
      exact iff_of_true (fits_firstToolName hname)
        ⟨fun hn => absurd hname hn, fun _ _ h => absurd h hfirst, by simp⟩
  · rw [applyStrictToolChoice_short hnone hreq [⟨tc.name, k.empty, []⟩]
      (by simp [forceToolCall, hcalls, hname, synthesize]) le_rfl, honoured_singleton, hcalls]
    exact ⟨fun h => ⟨fun _ => h, fun hn => absurd hn hname, by simp⟩, fun h => h.named hname⟩

/-- A scenario whose first call is not what was asked for: strict mode replaces all of them. -/
theorem honoured_replaced_iff
    (hcalls : resp.toolCalls = call :: rest) (hfits : ¬ tc.Fits call.name) :
    tc.Honoured ctx (applyStrictToolChoice k tc .enforce ctx resp).1.toolCalls ↔
      tc.FirstDecides ctx resp.toolCalls := by
  have hdecides : tc.FirstDecides ctx resp.toolCalls ↔ (tc.name ≠ [] → tc.Fits tc.name) := by
    refine ⟨fun h => h.named, fun h => ⟨h, by simp [hcalls], ?_⟩⟩
    intro c hc hfit
    rw [hcalls, head?_cons, Option.mem_some_iff] at hc
    exact absurd (hc ▸ hfit) hfits
  rw [hdecides]
  by_cases hname : tc.name ≠ [] ∧ call.name ≠ tc.name
  · rw [applyStrictToolChoice_short hnone hreq [⟨tc.name, k.empty, []⟩]
      (by simp [forceToolCall, hcalls, hname, synthesize]) le_rfl, honoured_singleton]
    exact ⟨fun h _ => h, fun h => h hname.1⟩
  · have hwanted : tc.name = [] ∨ call.name = tc.name := by
      rw [not_and_or, not_not, not_not] at hname
      exact hname
    have hoff : tc.allowedNames ≠ [] ∧ call.name ∉ tc.allowedNames := by
      rw [← not_or]
      exact fun h => hfits ⟨hwanted, h⟩
    rw [applyStrictToolChoice_short hnone hreq [⟨tc.allowedNames.headD [], k.empty, []⟩]
      (by simp only [forceToolCall, hcalls, if_neg hname, if_pos hoff, synthesize, if_true]) le_rfl,
      honoured_singleton]
    by_cases hempty : tc.name = []
    · exact iff_of_true (fits_head hempty hoff.1) fun h => absurd hempty h
    · -- The name is the call's own, which is off the list: no call can fit.
      have hown : call.name = tc.name := hwanted.resolve_left hempty
      refine iff_of_false (fun h => ?_) fun h => hfits (hown ▸ h hempty)
      have hlisted := h.2.resolve_left hoff.1
      rw [h.1.resolve_left hempty, ← hown] at hlisted
      exact hoff.2 hlisted

/-- A scenario whose first call is what was asked for: strict mode keeps the calls, up to the cap. -/
theorem honoured_kept_iff (hcalls : resp.toolCalls = call :: rest) (hfits : tc.Fits call.name) :
    tc.Honoured ctx (applyStrictToolChoice k tc .enforce ctx resp).1.toolCalls ↔
      tc.FirstDecides ctx resp.toolCalls := by
  have hname : ¬ (tc.name ≠ [] ∧ call.name ≠ tc.name) := fun h => h.2 (hfits.1.resolve_left h.1)
  have hlisted : ¬ (tc.allowedNames ≠ [] ∧ call.name ∉ tc.allowedNames) :=
    fun h => h.2 (hfits.2.resolve_left h.1)
  have hforce : (forceToolCall k tc .enforce ctx resp).1.toolCalls = resp.toolCalls := by
    simp only [forceToolCall, hcalls, if_neg hname, if_neg hlisted]
  have hnamed : tc.name ≠ [] → tc.Fits tc.name := fun hn => hfits.1.resolve_left hn ▸ hfits
  rw [applyStrictToolChoice_calls hnone hreq, hforce]
  cases hcap : tc.parallelDisabled with
  | true =>
    rw [if_pos rfl, show resp.toolCalls.take 1 = [call] by rw [hcalls]; rfl, honoured_singleton]
    exact iff_of_true hfits ⟨hnamed, by simp [hcalls], by simp [hcap]⟩
  | false =>
    rw [if_neg Bool.false_ne_true]
    constructor
    · intro h
      exact ⟨hnamed, by simp [hcalls], fun _ _ _ _ => h.fits⟩
    · intro h
      exact ⟨by simp [hcalls], h.rest call (by simp [hcalls]) hfits hcap, by simp [hcap]⟩

end

theorem applyStrictToolChoice_warn : (applyStrictToolChoice k tc .warn ctx resp).1 = resp := by
  have hforce : (forceToolCall k tc .warn ctx resp).1 = resp ∧
      (forceToolCall k tc .warn ctx resp).2.1 = false := by
    simp only [forceToolCall, reduceCtorEq, if_false, decide_false]
    cases resp.toolCalls <;> dsimp only <;> split_ifs <;> exact ⟨rfl, rfl⟩
  have hcap : (capParallel tc .warn resp).1 = resp := by
    simp only [capParallel, reduceCtorEq, if_false]
    split_ifs <;> rfl
  have hrequired : (applyRequired k tc .warn ctx resp).1 = resp := by
    simp only [applyRequired, hforce, Bool.false_eq_true, false_and, if_false]
  unfold applyStrictToolChoice
  split
  · rfl
  · cases tc.required <;> simp [hrequired, hcap]

/-- An enforced tool choice is honoured exactly where its first call decides; warn mode changes
nothing. -/
theorem applyStrictToolChoice_honours_iff (k : ArgsCodec A) (tc : ToolChoice) (ctx : ToolContext)
    (resp : Response A) (hnone : tc.none = false) (hreq : tc.required = true) :
    (tc.Honoured ctx (applyStrictToolChoice k tc .enforce ctx resp).1.toolCalls ∧
      (applyStrictToolChoice k tc .warn ctx resp).1 = resp) ↔ tc.FirstDecides ctx resp.toolCalls := by
  rw [and_iff_left applyStrictToolChoice_warn]
  cases hcalls : resp.toolCalls with
  | nil => exact hcalls ▸ honoured_nil_iff hnone hreq hcalls
  | cons call rest =>
    rw [← hcalls]
    by_cases hfits : tc.Fits call.name
    · exact honoured_kept_iff hnone hreq hcalls hfits
    · exact honoured_replaced_iff hnone hreq hcalls hfits

def sampleEmitted (names : List Bytes) : Response Unit :=
  ⟨[], [], names.map fun n => ⟨n, (), []⟩, []⟩

def sampleForced (mode : StrictMode) (names : List Bytes) : Response Unit :=
  (applyStrictToolChoice ⟨(), (), fun _ => 0, fun _ => none, fun _ => none⟩
    ⟨false, true, bytes "a", [], false⟩ mode ⟨[], [], [bytes "a", bytes "b"], []⟩ (sampleEmitted names)).1

theorem applyStrictToolChoice_honours_one :
    ToolChoice.Honoured ⟨false, true, bytes "a", [], false⟩ ⟨[], [], [bytes "a", bytes "b"], []⟩
        (sampleForced .enforce [bytes "a"]).toolCalls ∧
      sampleForced .warn [bytes "a"] = sampleEmitted [bytes "a"] := by
  refine (applyStrictToolChoice_honours_iff _ _ _ _ rfl rfl).mpr
    ⟨fun _ => ⟨.inr rfl, .inl rfl⟩, by simp [sampleEmitted], ?_⟩
  intro _ _ _ _ d hd
  rw [sampleEmitted, map_singleton, mem_singleton] at hd
  exact ⟨.inr (by rw [hd]), .inl rfl⟩

/-- A second call of another name is kept. -/
theorem applyStrictToolChoice_keeps_other :
    ¬ ToolChoice.Honoured ⟨false, true, bytes "a", [], false⟩ ⟨[], [], [bytes "a", bytes "b"], []⟩
      (sampleForced .enforce [bytes "a", bytes "b"]).toolCalls := by
  intro h
  have hcalls : (sampleForced .enforce [bytes "a", bytes "b"]).toolCalls =
      [⟨bytes "a", (), []⟩, ⟨bytes "b", (), []⟩] := rfl
  have hfit := (h.fits ⟨bytes "b", (), []⟩ (by simp [hcalls])).1
  revert hfit
  decide +kernel

end

end MockAgents.Engine
