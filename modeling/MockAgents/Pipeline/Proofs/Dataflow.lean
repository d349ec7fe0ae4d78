import MockAgents.Pipeline.Proofs.Walk
/-!
# The dataflow meaning of a graph pipeline

`Dataflow` states what a run of an acyclic graph has to compute, without
mentioning counters, recursion or the order in which nodes settle.  Every run of
`runGraph` without a failing node is such a dataflow.
-/

namespace MockAgents.Pipeline.Proofs

open Lib Lib.Digraph Relation List

variable {ε : Type} {spec : PipelineSpec} {userMsg : Bytes}

/-- The output of `p` is passed to `v`: some counted edge between them fires. -/
def Feeds (spec : PipelineSpec) (p : NodeInteraction) (v : String) : Prop :=
  ∃ e ∈ spec.edges, spec.counted e = true ∧ e.fromID = p.nodeID ∧ e.toID = v ∧
    e.fires (content p) = true

/-- The node interactions of a run, in the order of `res.Nodes`, evaluate the
graph: who runs, on what input, with what output, and in which order. -/
structure Dataflow (spec : PipelineSpec) (invoke : PipelineAgent → Bytes → Bytes)
    (userMsg : Bytes) (nodes : List NodeInteraction) : Prop where
  once : (nodes.map (·.nodeID)).Nodup
  ran : ∀ v, (∃ r ∈ nodes, r.nodeID = v) ↔
    spec.Declared v ∧ (Root spec v ∨ ∃ p ∈ nodes, Feeds spec p v)
  output : ∀ r ∈ nodes, ∃ node, nodesByID spec r.nodeID = some node ∧
    r.agentName = node.ref ∧ r.response = some (invoke node r.input)
  rootInput : ∀ r ∈ nodes, Root spec r.nodeID → r.input = userMsg
  joinInput : ∀ r ∈ nodes, ¬ Root spec r.nodeID → ∃ parents : List NodeInteraction,
    parents.Nodup ∧ (∀ p, p ∈ parents ↔ p ∈ nodes ∧ Feeds spec p r.nodeID) ∧
    r.input = Strings.join (parents.map content) blankLine
  ordered : ∀ i j (hi : i < nodes.length) (hj : j < nodes.length),
    spec.Edge nodes[i].nodeID nodes[j].nodeID → i < j
  sink : ∀ r, nodes.getLast? = some r → ∀ e ∈ spec.edges, e.fromID = r.nodeID →
    e.fromID ≠ e.toID → e.fires (content r) = false

section Final

variable {invokeNode : PipelineAgent → Bytes → Except ε Bytes} {evs : List PipelineEdge}
  {feeds : String → List NodeInteraction} {w : Walk}

/-- Once everything is settled, the feeds are those of the dataflow. -/
theorem WalkInv.mem_feeds_iff (h : WalkInv spec invokeNode userMsg none [] evs feeds w)
    (hall : ∀ v, spec.Declared v → w.settled v = true) (v : String) (p : NodeInteraction) :
    p ∈ feeds v ↔ p ∈ w.recorded ∧ Feeds spec p v := by
  rw [h.fed v p]
  refine and_congr_right fun hp => ?_
  have hpd : spec.Declared p.nodeID := h.declared _ (h.recorded p hp)
  constructor
  · rintro ⟨hv, e, he, hfrom, hto, hne, hfires⟩
    have hmem := ((h.cover e).mp (.inl he)).1
    have hcount : spec.counted e = true :=
      (spec.counted_iff e).mpr ⟨hto ▸ hne, hfrom ▸ hpd, hto ▸ hv⟩
    exact ⟨e, hmem, hcount, hfrom, hto, hfires⟩
  · rintro ⟨e, hmem, hcount, hfrom, hto, hfires⟩
    obtain ⟨hne, hf, ht⟩ := (spec.counted_iff e).mp hcount
    rcases (h.cover e).mpr ⟨hmem, hall _ hf⟩ with he | he
    · exact ⟨hto ▸ ht, e, he, hfrom, hto, hto ▸ hne, hfires⟩
    · exact absurd he not_mem_nil

theorem WalkInv.ran_iff (h : WalkInv spec invokeNode userMsg none [] evs feeds w)
    (hall : ∀ v, spec.Declared v → w.settled v = true) (v : String) :
    (∃ r ∈ w.recorded, r.nodeID = v) ↔
      spec.Declared v ∧ (Root spec v ∨ ∃ p ∈ w.recorded, Feeds spec p v) := by
  have hfed : feeds v ≠ [] ↔ ∃ p ∈ w.recorded, Feeds spec p v := by
    rw [ne_nil_iff_exists_cons]
    constructor
    · rintro ⟨p, tail, hcons⟩
      exact ⟨p, (h.mem_feeds_iff hall v p).mp (by simp [hcons])⟩
    · rintro ⟨p, hp⟩
      exact ne_nil_iff_exists_cons.mp
        (ne_nil_of_mem ((h.mem_feeds_iff hall v p).mpr hp))
  rw [← hfed]
  constructor
  · rintro ⟨r, hr, rfl⟩
    have hs := h.recorded r hr
    exact ⟨h.declared _ hs, (h.ran _ hs).mp ⟨r, hr, rfl⟩⟩
  · rintro ⟨hv, hrun⟩
    exact (h.ran v (hall v hv)).mpr hrun

theorem WalkInv.ordered_index (h : WalkInv spec invokeNode userMsg none [] evs feeds w)
    (i j : Nat) (hi : i < w.recorded.length) (hj : j < w.recorded.length)
    (hedge : spec.Edge w.recorded[i].nodeID w.recorded[j].nodeID) : i < j := by
  rcases Nat.lt_trichotomy i j with hlt | heq | hgt
  · exact hlt
  · subst heq
    exact absurd rfl (Edge.ne hedge)
  · exact absurd hedge (pairwise_iff_getElem.mp h.ordered j i hj hi hgt)

/-- The last node's edges were all silent: a fired one would have made its
target run later. -/
theorem WalkInv.sink (h : WalkInv spec invokeNode userMsg none [] evs feeds w)
    (hall : ∀ v, spec.Declared v → w.settled v = true)
    (hdangling : ¬ DanglingFire spec w.recorded) {r : NodeInteraction}
    (hlast : w.recorded.getLast? = some r) (e : PipelineEdge) (he : e ∈ spec.edges)
    (hfrom : e.fromID = r.nodeID) (hloop : e.fromID ≠ e.toID) : e.fires (content r) = false := by
  have hr : r ∈ w.recorded := mem_of_getLast? hlast
  by_contra hfires
  rw [Bool.not_eq_false] at hfires
  by_cases hto : spec.Declared e.toID
  · have hcount : spec.counted e = true :=
      (spec.counted_iff e).mpr ⟨hloop, hfrom ▸ h.declared _ (h.recorded r hr), hto⟩
    obtain ⟨q, hq, hqid⟩ := (h.ran_iff hall e.toID).mpr
      ⟨hto, .inr ⟨r, hr, e, he, hcount, hfrom, rfl, hfires⟩⟩
    obtain ⟨j, hj, hqj⟩ := getElem_of_mem hq
    have hlen : w.recorded.length - 1 < w.recorded.length := by omega
    have hrlast : w.recorded[w.recorded.length - 1] = r := by
      rw [getLast?_eq_getElem?, getElem?_eq_getElem hlen] at hlast
      exact Option.some.inj hlast
    have hedge : spec.Edge w.recorded[w.recorded.length - 1].nodeID w.recorded[j].nodeID := by
      rw [hrlast, hqj]
      exact ⟨e, he, hcount, hfrom, hqid.symm⟩
    have hlt := h.ordered_index _ j hlen hj hedge
    omega
  · exact hdangling ⟨r, hr, e, he, hfrom, hloop, hto, hfires⟩

end Final

theorem not_danglingFire (h : ∀ e ∈ spec.edges, spec.Declared e.toID)
    (nodes : List NodeInteraction) : ¬ DanglingFire spec nodes := by
  rintro ⟨_, _, e, he, _, _, hto, _⟩
  exact hto (h e he)

/-- **Graph execution computes the dataflow meaning.**  For every acyclic
definition, user message, iteration order and total node behaviour, the run ends;
unless an edge fired towards an undeclared id it reports no error, the nodes it
lists are a dataflow, and the final response is the last of them. -/
theorem runGraph_dataflow (doc : PipelineDefinition) (order : List String)
    (horder : IterationOrder doc.spec order) (hac : Acyclic doc.spec.Edge)
    (invoke : PipelineAgent → Bytes → Bytes) (userMsg : Bytes) :
    ∃ nodes err, runGraph doc.name doc.spec
        (fun node input => (Except.ok (invoke node input) : Except ε Bytes)) userMsg order =
          some (nodes, err) ∧
      (¬ DanglingFire doc.spec nodes →
        err = none ∧ Dataflow doc.spec invoke userMsg nodes ∧
          finalResponse nodes = nodes.getLast?.map content) := by
  obtain ⟨nodes, err, hrun, hresult⟩ := @runGraph_spec ε doc.spec
    (fun node input => .ok (invoke node input)) userMsg order doc.name horder hac
  refine ⟨nodes, err, hrun, fun hdangling => ?_⟩
  cases err with
  | some err =>
    cases err with
    | node err =>
      obtain ⟨node, input, herr⟩ := hresult
      cases herr
    | unknownNode p v => exact absurd hresult hdangling
    | noAgents => exact hresult.elim
    | unknownTopology name => exact hresult.elim
    | pipelineCycle ids => exact hresult.elim
    | joined errs => exact hresult.elim
  | none =>
    obtain ⟨evs, feeds, w, rfl, h, hall⟩ := hresult
    have hflow : Dataflow doc.spec invoke userMsg w.recorded := by
      refine ⟨h.once, h.ran_iff hall, fun r hr => ?_, h.rootInput, fun r hr hroot => ?_,
        h.ordered_index, fun r hlast => h.sink hall hdangling hlast⟩
      · obtain ⟨node, hnode, href, hresp, hok⟩ := h.output r hr
        refine ⟨node, hnode, href, ?_⟩
        rw [hresp, Except.ok.inj hok]
      · exact ⟨feeds r.nodeID, h.feedsNodup _, h.mem_feeds_iff hall r.nodeID,
          h.joinInput r hr hroot⟩
    refine ⟨rfl, hflow, ?_⟩
    cases hlast : w.recorded.getLast? with
    | none =>
      rw [getLast?_eq_none_iff.mp hlast]
      rfl
    | some r =>
      obtain ⟨init, hinit⟩ := getLast?_eq_some_iff.mp hlast
      obtain ⟨_, _, _, hresp, _⟩ := h.output r (mem_of_getLast? hlast)
      rw [finalResponse, hinit]
      simp [hresp]

def diamond : PipelineDefinition where
  apiVersion := agentAPIVersion
  kind := pipelineKind
  name := "diamond"
  spec := {
    topology := .graph
    agents := [⟨"a", "r"⟩, ⟨"b", "r"⟩, ⟨"c", "r"⟩, ⟨"d", "r"⟩]
    edges := [⟨"a", "b", []⟩, ⟨"a", "c", []⟩, ⟨"b", "d", []⟩, ⟨"c", "d", []⟩] }

theorem diamond_order : IterationOrder diamond.spec ["d", "b", "a", "c"] := by
  refine ⟨by decide, fun id => ?_⟩
  simp only [diamond, PipelineSpec.Declared, map_cons, map_nil, mem_cons, not_mem_nil, or_false]
  tauto

theorem diamond_acyclic : Acyclic diamond.spec.Edge :=
  acyclic_of_cyclicNodes diamond_order (by decide)

theorem runGraph_dataflow_diamond :
    ∃ nodes, runGraph diamond.name diamond.spec
        (fun node input => (.ok (Utf8.bytes node.id ++ input) : Except Unit Bytes)) [72]
        ["d", "b", "a", "c"] = some (nodes, none) ∧
      Dataflow diamond.spec (fun node input => Utf8.bytes node.id ++ input) [72] nodes := by
  obtain ⟨nodes, err, hrun, hflow⟩ := runGraph_dataflow (ε := Unit) diamond ["d", "b", "a", "c"]
    diamond_order diamond_acyclic (fun node input => Utf8.bytes node.id ++ input) [72]
  obtain ⟨herr, hdata, _⟩ := hflow (not_danglingFire (by decide) nodes)
  exact ⟨nodes, herr ▸ hrun, hdata⟩

end MockAgents.Pipeline.Proofs
