import MockAgents.Mcp.Proofs.Conservation
/-!
# The order of delivery

A pump that is replaced while it holds a message may put it back, or still deliver it,
after its successor has delivered a later one.  Where a pump takes a message off the
queue only while no pump holds one, the received messages, the held one and the queue are
together a part of what was enqueued, in its order.
-/

namespace MockAgents.Mcp

open Lib List Option

def Task.takes (s : Shared) : Task → Bool
  | .pump sub .head => !s.bi.stopped sub && !s.bi.outbound.isEmpty
  | _ => false

/-- A message is taken off the queue only while no pump holds one. -/
def TakesAlone (w : Pool Shared Task) : Act Call Ready → Prop
  | .start _ => True
  | .step i _ => w.calls[i]?.any (·.takes w.shared) = true → w.gather Task.holds = []

instance (w : Pool Shared Task) (a : Act Call Ready) : Decidable (TakesAlone w a) := by
  cases a with
  | start => exact inferInstanceAs (Decidable True)
  | step i _ =>
    exact inferInstanceAs (Decidable (w.calls[i]?.any (·.takes w.shared) = true →
      w.gather Task.holds = []))

/-- What was received, what is held and what is queued, in the order of `enqueue`. -/
structure InOrder (w : Pool Shared Task) : Prop where
  one : (w.gather Task.holds).length ≤ 1
  sublist : (w.shared.history.delivered ++ (w.gather Task.holds ++ w.shared.bi.outbound)).Sublist
    w.shared.history.sent

theorem eq_of_perm_of_length_le_one {α : Type} {l l' : List α} (h : l'.Perm l)
    (hlen : l.length ≤ 1) : l' = l := by
  match l, hlen with
  | [], _ => exact h.eq_nil
  | [a], _ => exact perm_singleton.mp h

theorem held_eq {α : Type} {l l' : List α} {a : α} (h : l.Perm (l' ++ [a])) (hlen : l.length ≤ 1) :
    l = [a] ∧ l' = [] := by
  have hl := h.length_eq
  rw [length_append, length_singleton] at hl
  have hnil : l' = [] := eq_nil_of_length_eq_zero (by omega)
  subst hnil
  exact ⟨perm_singleton.mp h, rfl⟩

theorem inOrder_step {w : Pool Shared Task} (hw : InOrder w) {i : Nat} {t t' : Task} {s' : Shared}
    (hi : w.calls[i]? = some t) (hstep : Step w.shared t s' t')
    (halone : t.takes w.shared = true → w.gather Task.holds = []) :
    InOrder ⟨s', w.calls.set i t'⟩ := by
  have htrade := Pool.gather_set Task.holds hi s' t'
  have hone := hw.one
  have hsub := hw.sublist
  -- a step that leaves what its goroutine holds leaves what is held
  have hkept : t'.holds = t.holds →
      (s'.history.delivered ++ (w.gather Task.holds ++ s'.bi.outbound)).Sublist s'.history.sent →
      InOrder ⟨s', w.calls.set i t'⟩ := fun heq h => by
    rw [heq] at htrade
    have hheld := eq_of_perm_of_length_le_one ((perm_append_right_iff _).mp htrade).symm hone
    exact ⟨hheld ▸ hone, hheld ▸ h⟩
  have hgiven : ∀ {e}, t.holds = some e → t'.holds = none →
      (w.gather Task.holds = [e] → (s'.history.delivered ++ s'.bi.outbound).Sublist s'.history.sent) →
      InOrder ⟨s', w.calls.set i t'⟩ := fun hbefore hafter h => by
    rw [hbefore, hafter, toList_none, append_nil] at htrade
    obtain ⟨hheld, hnone⟩ := held_eq htrade hone
    exact ⟨hnone ▸ Nat.zero_le 1, hnone ▸ h hheld⟩
  cases hstep with
  | take sub e rest live queue =>
    have hnone := halone (by simp [Task.takes, live, queue])
    simp only [hnone, Task.holds, toList_some, toList_none, append_nil, nil_append] at htrade
    have hheld := singleton_perm.mp htrade
    refine ⟨by rw [← hheld]; rfl, ?_⟩
    rw [← hheld]
    rw [hnone, queue] at hsub
    exact hsub
  | deliver sub e | putBack sub e =>
    refine hgiven rfl rfl fun hheld => ?_
    rw [hheld] at hsub
    simpa [Shared.receive, Shared.putBack] using hsub
  | append msg =>
    -- the cap takes from the front of the queue, and the new message is the last
    have hqueue : (w.shared.history.delivered ++ (w.gather Task.holds ++
        (w.shared.bi.outbound ++ [w.shared.entry msg]).drop w.shared.excess)).Sublist
        (w.shared.history.delivered ++ (w.gather Task.holds ++
          (w.shared.bi.outbound ++ [w.shared.entry msg]))) :=
      ((drop_sublist _ _).append_left _).append_left _
    have hlast := hsub.append_right [w.shared.entry msg]
    simp only [append_assoc] at hqueue hlast
    refine hkept rfl ?_
    simp only [Shared.append]
    exact hqueue.trans hlast
  | drop id => exact hkept rfl (((eraseP_sublist.append_left _).append_left _).trans hsub)
  | attach => exact hkept rfl (by simpa [Bidirectional.attach] using hsub)
  | detach sub =>
    have hsame : (w.shared.bi.detach sub).outbound = w.shared.bi.outbound := by
      rcases w.shared.bi.detach_eq sub with heq | heq <;> rw [heq]
    exact hkept rfl (by simpa [hsame] using hsub)
  | exit sub pc idle => exact hkept (by rcases idle with rfl | rfl | rfl <;> rfl) hsub
  | stay | sleep | awaken | abandon | nudge | stop | signal | unheard => exact hkept rfl hsub

theorem inOrder_start {w : Pool Shared Task} (hw : InOrder w) (call : Call) :
    InOrder (mcp.act w (.start call)) := by
  have hgather : (mcp.act w (.start call)).gather Task.holds = w.gather Task.holds := by
    rw [Pool.gather_start]
    simp [mcp, holds_start]
  exact ⟨hgather ▸ hw.one, hgather ▸ hw.sublist⟩

/-- Subscribers receive messages in the order in which they were enqueued, in every run
where a pump takes a message off the queue only while no pump holds one. -/
theorem delivered_in_order (acts : List (Act Call Ready)) (h : mcp.Steps TakesAlone opened acts) :
    (mcp.run opened acts).shared.history.delivered.Sublist
      (mcp.run opened acts).shared.history.sent := by
  have hopened : InOrder opened := ⟨Nat.zero_le _, Sublist.refl _⟩
  have hrun : InOrder (mcp.run opened acts) :=
    System.Steps.run_induction (P := InOrder)
      (fun w a hw halone => act_of_steps hw (fun call _ => inOrder_start hw call)
        fun i ready t s' t' hact hi hstep => by
          subst hact
          refine inOrder_step hw hi hstep fun htakes => halone ?_
          simpa [hi] using htakes) h hopened
  exact (sublist_append_left _ _).trans hrun.sublist

/-! ## Replacement -/

def ping (n : Nat) : OutboundMessage :=
  .ofNotification ⟨toString n⟩

def replaced : List (Act Call Ready) :=
  [.start (.enqueue (ping 1)), .start (.enqueue (ping 2)), .step 0 .channel, .step 1 .channel,
    -- the first pump takes the first message and has no reader
    .start .subscribe, .step 2 .channel, .step 2 .channel,
    .start .subscribe, .step 3 .channel]

theorem delivered_in_order_replaced :
    (mcp.run opened (replaced ++ [.step 2 .done, .step 2 .done, .step 3 .channel, .step 3 .channel,
      .step 3 .channel, .step 3 .channel])).shared.history.delivered.map (·.seq) = [0, 1] ∧
    (mcp.run opened (replaced ++ [.step 2 .done, .step 2 .done, .step 3 .channel, .step 3 .channel,
      .step 3 .channel, .step 3 .channel])).shared.history.delivered.Sublist
      (mcp.run opened (replaced ++ [.step 2 .done, .step 2 .done, .step 3 .channel,
        .step 3 .channel, .step 3 .channel, .step 3 .channel])).shared.history.sent :=
  ⟨by decide +kernel, delivered_in_order _ (by decide +kernel)⟩

/-- The successor delivers the second message while the replaced pump holds the first,
and the first after it. -/
theorem delivered_out_of_order :
    (mcp.run opened (replaced ++ [.step 3 .channel, .step 3 .channel, .step 2 .done,
      .step 2 .done, .step 3 .channel, .step 3 .channel])).shared.history.delivered.map (·.seq) =
      [1, 0] ∧
    ¬ (mcp.run opened (replaced ++ [.step 3 .channel, .step 3 .channel, .step 2 .done,
      .step 2 .done, .step 3 .channel, .step 3 .channel])).shared.history.delivered.Sublist
      (mcp.run opened (replaced ++ [.step 3 .channel, .step 3 .channel, .step 2 .done,
        .step 2 .done, .step 3 .channel, .step 3 .channel])).shared.history.sent := by
  decide +kernel

end MockAgents.Mcp
