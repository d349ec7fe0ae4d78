import MockAgents.Pipeline.Executor
import MockAgents.Pipeline.Validator
import MockAgents.Lib.Digraph
/-!
# The maps a graph run builds

Closed forms of the loops that fill `nodesByID`, `outgoing`, `indegree` and the
validator's `forward`, in terms of the edge list alone.
-/

namespace MockAgents.Pipeline.Proofs

open Lib Relation List Function Bool PipelineSpec

variable (spec : PipelineSpec)
variable {u v : String} {e : PipelineEdge}

/-! ## Declared nodes -/

private theorem foldl_nodesByID (agents : List PipelineAgent)
    (m : String → Option PipelineAgent) (id : String) :
    agents.foldl (fun (m : String → Option PipelineAgent) n =>
        Function.update m n.id (some n)) m id =
      ((agents.reverse.find? (·.id == id)).or (m id)) := by
  induction agents generalizing m with
  | nil => simp
  | cons a as ih =>
    rw [foldl_cons, ih, reverse_cons]
    by_cases h : a.id = id
    · subst h
      simp
    · have hne : id ≠ a.id := fun h' => h h'.symm
      simp [update_of_ne hne, h]

theorem nodesByID_eq (id : String) :
    nodesByID spec id = spec.agents.reverse.find? (·.id == id) := by
  rw [nodesByID, foldl_nodesByID]
  simp

theorem nodesByID_isSome (id : String) : (nodesByID spec id).isSome = true ↔ spec.Declared id := by
  rw [nodesByID_eq]
  simp [Declared]

theorem nodesByID_isNone (id : String) :
    (nodesByID spec id).isNone = true ↔ ¬ spec.Declared id := by
  rw [← nodesByID_isSome]
  cases nodesByID spec id <;> simp

theorem nodesByID_id {id : String} {n : PipelineAgent} (h : nodesByID spec id = some n) :
    n.id = id := by
  rw [nodesByID_eq] at h
  simpa using find?_some h

/-- Taking one declared id out of a predicate lowers the number of agents it
counts: the measure of both recursive closures. -/
theorem countP_id_lt {agents : List PipelineAgent} {p q : String → Bool} {n : String}
    (hn : n ∈ agents.map (·.id)) (hp : p n = true) (hq : q n = false)
    (hle : ∀ v, q v = true → p v = true) :
    agents.countP (fun a => q a.id) < agents.countP (fun a => p a.id) := by
  induction agents with
  | nil => simp at hn
  | cons a as ih =>
    have hmono : as.countP (fun a => q a.id) ≤ as.countP (fun a => p a.id) :=
      countP_mono_left fun b _ hb => hle b.id hb
    rw [countP_cons, countP_cons]
    by_cases heq : a.id = n
    · rw [heq, hp, hq]
      simp only [false_eq_true, if_false, if_true]
      omega
    · have hlt := ih (by simpa [Ne.symm heq] using hn)
      have hstep : (if q a.id = true then 1 else 0) ≤ if p a.id = true then 1 else 0 := by
        by_cases hqa : q a.id = true
        · simp [hqa, hle a.id hqa]
        · simp [hqa]
      omega

/-! ## Edges by source and by target -/

private theorem foldl_outgoing (edges : List PipelineEdge)
    (m : String → List PipelineEdge) (u : String) :
    edges.foldl (fun m e => Function.update m e.fromID (m e.fromID ++ [e])) m u =
      m u ++ edges.filter (fun e => e.fromID == u) := by
  induction edges generalizing m with
  | nil => simp
  | cons e es ih =>
    rw [foldl_cons, ih]
    by_cases h : e.fromID = u
    · subst h
      simp
    · have hne : u ≠ e.fromID := fun h' => h h'.symm
      simp [update_of_ne hne, h]

theorem outgoing_eq (u : String) :
    outgoing spec u = spec.edges.filter (fun e => e.fromID == u) := by
  rw [outgoing, foldl_outgoing]
  simp

theorem mem_outgoing : e ∈ outgoing spec u ↔ e ∈ spec.edges ∧ e.fromID = u := by
  rw [outgoing_eq]
  simp

def inbound (v : String) : List PipelineEdge :=
  spec.edges.filter fun e => spec.counted e && e.toID == v

theorem mem_inbound : e ∈ inbound spec v ↔ e ∈ spec.edges ∧ spec.counted e = true ∧ e.toID = v := by
  rw [inbound]
  simp

/-- A loop that increments one counter per selected edge counts them. -/
private theorem foldl_count (edges : List PipelineEdge) (sel : PipelineEdge → Bool)
    (step : (String → Int) → PipelineEdge → String → Int)
    (hstep : ∀ m e, step m e =
      if sel e then Function.update m e.toID (m e.toID + 1) else m)
    (m : String → Int) (v : String) :
    edges.foldl step m v = m v + (edges.filter fun e => sel e && e.toID == v).length := by
  induction edges generalizing m with
  | nil => simp
  | cons e es ih =>
    rw [foldl_cons, ih, hstep]
    by_cases hs : sel e = true
    · by_cases hv : e.toID = v
      · subst hv
        simp [hs]
        omega
      · have hne : v ≠ e.toID := fun h' => hv h'.symm
        simp [hs, hv, update_of_ne hne]
    · simp [hs]

theorem indegree_eq (v : String) : indegree spec v = ((inbound spec v).length : Int) := by
  rw [indegree, foldl_count spec.edges spec.counted]
  · simp [inbound]
  · intro m e
    have hfrom := nodesByID_isSome spec e.fromID
    have hto := nodesByID_isSome spec e.toID
    by_cases hloop : e.fromID = e.toID
    · simp [hloop, counted]
    · by_cases hc : spec.counted e = true
      · obtain ⟨_, hf, ht⟩ := (spec.counted_iff e).mp hc
        simp [hloop, hc, hfrom.mpr hf, hto.mpr ht]
      · have hor : ¬ ((nodesByID spec e.fromID).isSome && (nodesByID spec e.toID).isSome)
            = true := by
          rw [and_eq_true, hfrom, hto]
          exact fun h => hc ((spec.counted_iff e).mpr ⟨hloop, h.1, h.2⟩)
        rw [if_neg hloop, if_neg hor, if_neg hc]

theorem indegree_eq_zero_iff (v : String) : indegree spec v = 0 ↔ ∀ u, ¬ spec.Edge u v := by
  rw [indegree_eq, Int.natCast_eq_zero, length_eq_zero_iff, eq_nil_iff_forall_not_mem]
  constructor
  · rintro h u ⟨e, he, hc, rfl, rfl⟩
    exact h e ((mem_inbound spec).mpr ⟨he, hc, rfl⟩)
  · intro h e he
    obtain ⟨hmem, hc, hto⟩ := (mem_inbound spec).mp he
    exact h e.fromID ⟨e, hmem, hc, rfl, hto⟩

theorem Edge.declared {spec : PipelineSpec} (h : spec.Edge u v) :
    spec.Declared u ∧ spec.Declared v := by
  obtain ⟨e, _, hc, rfl, rfl⟩ := h
  exact ((spec.counted_iff e).mp hc).2

theorem Edge.ne {spec : PipelineSpec} (h : spec.Edge u v) : u ≠ v := by
  obtain ⟨e, _, hc, rfl, rfl⟩ := h
  exact ((spec.counted_iff e).mp hc).1

/-! ## The validator's adjacency -/

private theorem foldl_forward (edges : List PipelineEdge) (m : String → List String) (u : String) :
    edges.foldl
        (fun (m : String → List String) e =>
          if !isForwardKey spec e.fromID then m
          else if !isForwardKey spec e.toID then m
          else if e.fromID = e.toID then m
          else Function.update m e.fromID (m e.fromID ++ [e.toID])) m u =
      m u ++ (edges.filter fun e => isForwardKey spec e.fromID && isForwardKey spec e.toID &&
        e.fromID != e.toID && e.fromID == u).map (·.toID) := by
  induction edges generalizing m with
  | nil => simp
  | cons e es ih =>
    rw [foldl_cons, ih]
    by_cases hf : isForwardKey spec e.fromID = true
    · by_cases ht : isForwardKey spec e.toID = true
      · by_cases hl : e.fromID = e.toID
        · simp [hl]
        · by_cases hu : e.fromID = u
          · subst hu
            simp [hf, ht, hl]
          · have hne : u ≠ e.fromID := fun h' => hu h'.symm
            simp [hf, ht, hl, hu, update_of_ne hne]
      · simp [hf, ht]
    · simp [hf]

theorem forward_eq (u : String) :
    forward spec u = (spec.edges.filter fun e => isForwardKey spec e.fromID &&
      isForwardKey spec e.toID && e.fromID != e.toID && e.fromID == u).map (·.toID) := by
  rw [forward, foldl_forward, nil_append]

/-- With non-empty ids the validator follows exactly the counted edges. -/
theorem mem_forward_iff (hid : ∀ a ∈ spec.agents, a.id ≠ "") (u v : String) :
    v ∈ forward spec u ↔ spec.Edge u v := by
  have hkey : ∀ id, isForwardKey spec id = true ↔ spec.Declared id := by
    intro id
    rw [isForwardKey, and_eq_true, any_id_iff]
    refine ⟨fun h => h.2, fun h => ⟨?_, h⟩⟩
    obtain ⟨a, ha, rfl⟩ := mem_map.mp h
    simpa using hid a ha
  rw [forward_eq, mem_map]
  constructor
  · rintro ⟨e, he, rfl⟩
    simp only [mem_filter, and_eq_true, bne_iff_ne, beq_iff_eq, hkey] at he
    obtain ⟨hmem, ⟨⟨hf, ht⟩, hl⟩, hu⟩ := he
    exact ⟨e, hmem, (spec.counted_iff e).mpr ⟨hl, hf, ht⟩, hu, rfl⟩
  · rintro ⟨e, hmem, hc, hu, rfl⟩
    obtain ⟨hl, hf, ht⟩ := (spec.counted_iff e).mp hc
    refine ⟨e, ?_, rfl⟩
    simp only [mem_filter, and_eq_true, bne_iff_ne, beq_iff_eq, hkey]
    exact ⟨hmem, ⟨⟨hf, ht⟩, hl⟩, hu⟩

end MockAgents.Pipeline.Proofs
