import MockAgents.Pipeline.Proofs.Graph
/-!
# Peeling decides acyclicity

`cyclicNodes` removes nodes of counted in-degree zero until none is left.  The
loop invariant says that a live node's counter is the number of counted edges
from live nodes, plus the edges of the node being relaxed that are still to be
seen; so the queue holds exactly the live nodes whose counter is zero, and a
removed node had all its predecessors removed before it.
-/

namespace MockAgents.Pipeline.Proofs

open Lib Lib.Digraph Relation List Function

variable {spec : PipelineSpec}
variable {e : PipelineEdge}

def inCount (spec : PipelineSpec) (p : String → Bool) (v : String) : Nat :=
  spec.edges.countP fun e => spec.counted e && e.toID == v && p e.fromID

/-- Edges of a relaxation that are still to be seen and end in `v`. -/
def pendingCount (pending : List PipelineEdge) (v : String) : Nat :=
  pending.countP fun e => e.fromID != e.toID && e.toID == v

theorem pendingCount_cons_self (hloop : e.fromID ≠ e.toID) (es : List PipelineEdge) :
    pendingCount (e :: es) e.toID = pendingCount es e.toID + 1 := by
  simp [pendingCount, hloop]

variable {v : String} {p : String → Bool} {rem : Remaining} {queue : List String}
variable {id : String} {order : List String}

theorem pendingCount_cons_skip (h : e.fromID = e.toID ∨ e.toID ≠ v) (es : List PipelineEdge) :
    pendingCount (e :: es) v = pendingCount es v := by
  rcases h with hloop | hne
  · simp [pendingCount, hloop]
  · simp [pendingCount, hne]

theorem inCount_pos_iff : 0 < inCount spec p v ↔ ∃ u, p u = true ∧ spec.Edge u v := by
  rw [inCount, countP_pos_iff]
  constructor
  · rintro ⟨e, he, h⟩
    simp only [Bool.and_eq_true, beq_iff_eq] at h
    exact ⟨e.fromID, h.2, e, he, h.1.1, rfl, h.1.2⟩
  · rintro ⟨u, hu, e, he, hc, rfl, rfl⟩
    exact ⟨e, he, by simp [hc, hu]⟩

theorem indegree_eq_inCount (hp : ∀ u, spec.Declared u → p u = true) (v : String) :
    indegree spec v = (inCount spec p v : Int) := by
  rw [indegree_eq, inbound, ← countP_eq_length_filter]
  congr 1
  apply countP_congr
  intro e _
  have hlive : spec.counted e = true → p e.fromID = true := fun hc =>
    hp _ ((spec.counted_iff e).mp hc).2.1
  simp only [Bool.and_eq_true, beq_iff_eq]
  exact ⟨fun h => ⟨h, hlive h.1⟩, fun h => h.1⟩

/-- The edges out of a removed node are exactly those its removal uncounts. -/
theorem inCount_erase (hp : p id = true) (hid : spec.Declared id) (hv : spec.Declared v) :
    inCount spec p v =
      inCount spec (fun u => p u && u != id) v + pendingCount (outgoing spec id) v := by
  rw [inCount, inCount, pendingCount, outgoing_eq, countP_filter]
  generalize spec.edges = edges
  induction edges with
  | nil => rfl
  | cons e es ih =>
    simp only [countP_cons, ih]
    by_cases hfrom : e.fromID = id
    · by_cases hto : e.toID = v
      · by_cases hloop : e.fromID = e.toID
        · have hc : spec.counted e = false := by simp [PipelineSpec.counted, hloop]
          simp [hc, hloop]
        · have hc : spec.counted e = true :=
            (spec.counted_iff e).mpr ⟨hloop, hfrom ▸ hid, hto ▸ hv⟩
          simp [hc, hfrom, hto, hp, hfrom ▸ hto ▸ hloop]
          omega
      · simp [hto]
    · simp [hfrom]
      omega

/-- The invariant of the peeling loop, with the edges `pending` of the node
under relaxation still to be processed. -/
structure PeelInv (spec : PipelineSpec) (pending : List PipelineEdge)
    (queue : List String) (rem : Remaining) : Prop where
  keysNodup : rem.keys.Nodup
  declared : ∀ v ∈ rem.keys, spec.Declared v
  queueNodup : queue.Nodup
  queueLive : ∀ v ∈ queue, v ∈ rem.keys
  ready : ∀ v ∈ rem.keys, rem.count v = 0 ↔ v ∈ queue
  count : ∀ v ∈ rem.keys, rem.count v =
    ((inCount spec (fun u => decide (u ∈ rem.keys)) v + pendingCount pending v : Nat) : Int)
  removed : ∀ v, spec.Declared v → v ∉ rem.keys → ¬ TransGen spec.Edge v v

theorem PeelInv.relax {pending : List PipelineEdge} (h : PeelInv spec pending queue rem) :
    PeelInv spec [] (relax pending queue rem).1 (relax pending queue rem).2 ∧
      (relax pending queue rem).2.keys = rem.keys := by
  induction pending generalizing queue rem with
  | nil => exact ⟨h, rfl⟩
  | cons e es ih =>
    rw [Pipeline.relax]
    by_cases hloop : e.fromID = e.toID
    · rw [if_pos hloop]
      refine ih { h with count := fun v hv => ?_ }
      rw [h.count v hv, pendingCount_cons_skip (.inl hloop)]
    · rw [if_neg hloop]
      by_cases hkey : e.toID ∈ rem.keys
      · simp only [hkey, not_true_eq_false, if_false]
        -- the edge is still counted, so its target was not queued yet
        have hcount := h.count e.toID hkey
        have hpend := pendingCount_cons_self hloop es
        have hnot : e.toID ∉ queue := by
          rw [← h.ready e.toID hkey, hcount]
          omega
        refine ih ⟨h.keysNodup, h.declared, ?_, ?_, ?_, ?_, h.removed⟩
        · split
          · exact nodup_append.mpr ⟨h.queueNodup, by simp, by
              intro a ha b hb
              rw [mem_singleton] at hb
              exact fun hab => hnot (hb ▸ hab ▸ ha)⟩
          · exact h.queueNodup
        · intro v hv
          split at hv
          · rcases mem_append.mp hv with hv | hv
            · exact h.queueLive v hv
            · rw [mem_singleton] at hv
              exact hv ▸ hkey
          · exact h.queueLive v hv
        · intro v hv
          by_cases heq : v = e.toID
          · subst heq
            by_cases hz : rem.count e.toID - 1 = 0
            · simp [hz]
            · simp [hz, hnot]
          · simp only [update_of_ne heq, h.ready v hv]
            split
            · simp [heq]
            · rfl
        · intro v hv
          by_cases heq : v = e.toID
          · subst heq
            simp only [update_self]
            rw [hcount]
            push_cast
            omega
          · simp only [update_of_ne heq]
            rw [h.count v hv, pendingCount_cons_skip (.inr (Ne.symm heq))]
      · simp only [hkey, not_false_eq_true, if_true]
        refine ih { h with count := fun v hv => ?_ }
        have hne : e.toID ≠ v := fun h' => hkey (h' ▸ hv)
        rw [h.count v hv, pendingCount_cons_skip (.inr hne)]

/-- Deleting the queue's head turns its edges into the pending ones. -/
theorem PeelInv.pop (h : PeelInv spec [] (id :: queue) rem) :
    PeelInv spec (outgoing spec id) queue { rem with keys := rem.keys.erase id } := by
  have hid : id ∈ rem.keys := h.queueLive id mem_cons_self
  have hzero : rem.count id = 0 := (h.ready id hid).mpr mem_cons_self
  have hmem : ∀ v, v ∈ rem.keys.erase id ↔ v ≠ id ∧ v ∈ rem.keys :=
    fun v => h.keysNodup.mem_erase_iff
  have hnot : id ∉ queue := (nodup_cons.mp h.queueNodup).1
  refine ⟨h.keysNodup.erase id, fun v hv => h.declared v ((hmem v).mp hv).2,
    (nodup_cons.mp h.queueNodup).2, ?_, ?_, ?_, ?_⟩
  · intro v hv
    exact (hmem v).mpr ⟨fun heq => hnot (heq ▸ hv), h.queueLive v (mem_cons_of_mem id hv)⟩
  · intro v hv
    obtain ⟨hne, hv⟩ := (hmem v).mp hv
    rw [h.ready v hv]
    simp [hne]
  · intro v hv
    obtain ⟨hne, hv⟩ := (hmem v).mp hv
    have hlive : (fun u => decide (u ∈ rem.keys)) id = true := by simpa using hid
    rw [h.count v hv, inCount_erase hlive (h.declared id hid) (h.declared v hv)]
    have hkeys : (fun u => decide (u ∈ rem.keys) && u != id) =
        fun u => decide (u ∈ rem.keys.erase id) := by
      funext u
      rw [Bool.eq_iff_iff]
      simp [hmem u, and_comm]
    rw [hkeys]
    simp [pendingCount]
  · intro v hv hgone
    by_cases heq : v = id
    · subst heq
      -- its counter was zero, so every predecessor was removed before it
      apply not_cycle_of_preds (S := fun u => spec.Declared u ∧ u ∉ rem.keys)
      · exact fun a ha => h.removed a ha.1 ha.2
      · intro u huv
        refine ⟨(Edge.declared huv).1, fun hu => ?_⟩
        have hpos : 0 < inCount spec (fun u => decide (u ∈ rem.keys)) v :=
          inCount_pos_iff.mpr ⟨u, by simpa using hu, huv⟩
        have hcount := h.count v hid
        rw [hzero] at hcount
        omega
    · exact h.removed v hv fun hv' => hgone ((hmem v).mpr ⟨heq, hv'⟩)

/-- The loop ends with enough fuel, and every live node is then stuck. -/
theorem peel_spec (fuel : Nat) (h : PeelInv spec [] queue rem) (hfuel : rem.keys.length ≤ fuel) :
    ∃ rem', peel (outgoing spec) fuel queue rem = some rem' ∧ PeelInv spec [] [] rem' := by
  induction fuel generalizing queue rem with
  | zero =>
    have hkeys : rem.keys = [] := length_eq_zero_iff.mp (Nat.le_zero.mp hfuel)
    cases queue with
    | nil => exact ⟨rem, rfl, h⟩
    | cons id queue =>
      have hid := h.queueLive id mem_cons_self
      simp [hkeys] at hid
  | succ fuel ih =>
    cases queue with
    | nil => exact ⟨rem, rfl, h⟩
    | cons id queue =>
      have hid : id ∈ rem.keys := h.queueLive id mem_cons_self
      obtain ⟨hrelax, hkeys⟩ := h.pop.relax
      have hlen : (rem.keys.erase id).length ≤ fuel := by
        rw [length_erase_of_mem hid]
        omega
      exact ih hrelax (by rw [hkeys]; exact hlen)

theorem PeelInv.stuck (h : PeelInv spec [] [] rem) (hv : v ∈ rem.keys) :
    ∃ u ∈ rem.keys, spec.Edge u v := by
  have hne : rem.count v ≠ 0 := by
    rw [ne_eq, h.ready v hv]
    exact not_mem_nil
  have hpos : 0 < inCount spec (fun u => decide (u ∈ rem.keys)) v := by
    have hcount := h.count v hv
    simp only [pendingCount, countP_nil, Nat.add_zero] at hcount
    omega
  obtain ⟨u, hu, huv⟩ := inCount_pos_iff.mp hpos
  exact ⟨u, by simpa using hu, huv⟩

theorem PeelInv.keys_eq_nil_iff (h : PeelInv spec [] [] rem) :
    rem.keys = [] ↔ Acyclic spec.Edge := by
  constructor
  · intro hkeys v hcycle
    obtain ⟨w, hvw, _⟩ := TransGen.head'_iff.mp hcycle
    exact h.removed v (Edge.declared hvw).1 (by simp [hkeys]) hcycle
  · intro hac
    by_contra hne
    obtain ⟨x, hx⟩ := exists_mem_of_ne_nil _ hne
    obtain ⟨a, ha, hmin⟩ := hac.exists_source (S := rem.keys.toFinset) ⟨x, by simpa using hx⟩
    obtain ⟨u, hu, hua⟩ := h.stuck (by simpa using ha)
    exact hmin u (by simpa using hu) hua

theorem leftover_eq_nil_iff (agents : List PipelineAgent) (keys : List String) :
    leftover agents keys = [] ↔ ∀ a ∈ agents, a.id ∉ keys := by
  induction agents generalizing keys with
  | nil => simp [leftover]
  | cons a as ih =>
    rw [leftover]
    by_cases h : a.id ∈ keys
    · simp [h]
    · simp [h, ih]

/-- An order in which `range` may yield the keys of the node maps. -/
def IterationOrder (spec : PipelineSpec) (order : List String) : Prop :=
  order.Nodup ∧ ∀ id, id ∈ order ↔ spec.Declared id

theorem PeelInv.start (horder : IterationOrder spec order) :
    PeelInv spec [] (order.filter fun id => indegree spec id = 0) ⟨order, indegree spec⟩ := by
  refine ⟨horder.1, fun v hv => (horder.2 v).mp hv, horder.1.filter _,
    fun v hv => (mem_filter.mp hv).1, ?_, ?_, ?_⟩
  · intro v hv
    simp only [mem_filter, decide_eq_true_eq]
    exact ⟨fun h => ⟨hv, h⟩, fun h => h.2⟩
  · intro v _
    have hlive : ∀ u, spec.Declared u → (fun u => decide (u ∈ order)) u = true :=
      fun u hu => by simpa using (horder.2 u).mpr hu
    simpa [pendingCount] using indegree_eq_inCount hlive v
  · intro v hv hgone
    exact absurd ((horder.2 v).mpr hv) hgone

/-- **Peeling.** For every iteration order of the in-degree map `cyclicNodes`
ends, and it reports nothing exactly when the counted edges are acyclic. -/
theorem cyclicNodes_spec (horder : IterationOrder spec order) :
    ∃ cyclic, cyclicNodes order spec.agents (outgoing spec) (indegree spec) = some cyclic ∧
      (cyclic = [] ↔ Acyclic spec.Edge) := by
  obtain ⟨rem, hpeel, hinv⟩ :=
    peel_spec (order.length + 1) (PeelInv.start horder) (Nat.le_succ _)
  refine ⟨_, by rw [cyclicNodes, hpeel], ?_⟩
  rw [← hinv.keys_eq_nil_iff]
  cases hkeys : rem.keys with
  | nil => simp
  | cons k ks =>
    have hk : k ∈ rem.keys := by simp [hkeys]
    obtain ⟨a, ha, hak⟩ := mem_map.mp (hinv.declared k hk)
    simp only [isEmpty_cons, Bool.false_eq_true, if_false, reduceCtorEq, iff_false]
    rw [leftover_eq_nil_iff]
    intro hnone
    exact hnone a ha (by simp [hak])

theorem acyclic_of_cyclicNodes (horder : IterationOrder spec order)
    (h : cyclicNodes order spec.agents (outgoing spec) (indegree spec) = some []) : Acyclic spec.Edge := by
  obtain ⟨cyclic, hpeel, hnil⟩ := cyclicNodes_spec horder
  exact hnil.mp (Option.some.inj (hpeel.symm.trans h))

end MockAgents.Pipeline.Proofs
