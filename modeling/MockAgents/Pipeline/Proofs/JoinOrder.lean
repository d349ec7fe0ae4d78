import MockAgents.Pipeline.Proofs.Dataflow
/-!
# The order of a join's inputs

A node passes its output on while its edges are walked, and that walk settles other nodes in
between.  A node that runs in such a nested call may feed a join before the node that was there
first does, so the outputs a join sees need not be in the order in which its parents ran.

`Pass.InTurn` is the condition on the step that passes an output on: no node that ran since feeds
the same target.  In every run whose passes are all in turn, the input of a join is the outputs of
its parents in run order.  Failing runs are included.
-/

namespace MockAgents.Pipeline.Proofs

open Lib Lib.Digraph List Function

variable {ε : Type} {spec : PipelineSpec}
  {invokeNode : PipelineAgent → Bytes → Except ε Bytes} {userMsg : Bytes}
variable {α : Type}

instance (spec : PipelineSpec) (p : NodeInteraction) (v : String) : Decidable (Feeds spec p v) :=
  inferInstanceAs (Decidable (∃ e ∈ spec.edges, _))

/-! ## Passes in turn -/

/-- The interactions after the one of a node, the latest first. -/
def ranSince (id : String) (recorded : List NodeInteraction) : List NodeInteraction :=
  recorded.reverse.takeWhile fun q => q.nodeID ≠ id

/-- No node that ran since the source feeds the target. -/
def Pass.InTurn (spec : PipelineSpec) (x : Pass) : Prop :=
  ∀ q ∈ ranSince x.source x.recorded, ¬ Feeds spec q x.target

instance (spec : PipelineSpec) (x : Pass) : Decidable (x.InTurn spec) :=
  inferInstanceAs (Decidable (∀ q ∈ _, _))

theorem mem_ranSince {before after : List NodeInteraction} {p : NodeInteraction}
    (honce : ((before ++ p :: after).map (·.nodeID)).Nodup) {q : NodeInteraction} (hq : q ∈ after) :
    q ∈ ranSince p.nodeID (before ++ p :: after) := by
  have hother : ∀ x ∈ after.reverse, decide (x.nodeID ≠ p.nodeID) = true := by
    intro x hx
    rw [map_append, map_cons, nodup_append, nodup_cons] at honce
    refine decide_eq_true fun heq => honce.2.1.1 ?_
    rw [← heq]
    exact mem_map_of_mem (mem_reverse.mp hx)
  rw [ranSince, reverse_append, reverse_cons, append_assoc, takeWhile_append_of_pos hother]
  exact mem_append_left _ (mem_reverse.mpr hq)

/-! ## Joins in run order -/

/-- Every join of a run has the outputs of its parents, in the order in which these ran. -/
def Joined (spec : PipelineSpec) (nodes : List NodeInteraction) : Prop :=
  ∀ before r after, nodes = before ++ r :: after → ¬ Root spec r.nodeID →
    r.input = Strings.join ((before.filter fun p => Feeds spec p r.nodeID).map content) blankLine

theorem joined_nil : Joined spec [] := by
  intro before r after h
  simp at h

theorem Joined.concat {nodes : List NodeInteraction} (h : Joined spec nodes) {r : NodeInteraction}
    (hr : ¬ Root spec r.nodeID →
      r.input = Strings.join ((nodes.filter fun p => Feeds spec p r.nodeID).map content) blankLine) :
    Joined spec (nodes ++ [r]) := by
  intro before x after heq hroot
  rcases eq_nil_or_concat after with rfl | ⟨init, last, rfl⟩
  · obtain ⟨rfl, hlast⟩ := append_inj' heq rfl
    cases hlast
    exact hr hroot
  · have hsplit : nodes ++ [r] = (before ++ x :: init) ++ [last] := by simpa using heq
    obtain ⟨hnodes, -⟩ := append_inj' hsplit rfl
    exact h before x init hnodes hroot

/-- What has been passed to each node is in run order. -/
def FedInTurn (feeds : String → List NodeInteraction) (w : Walk) : Prop := ∀ v, (feeds v).Sublist w.recorded

theorem eq_filter_of_sublist {P : α → Prop} [DecidablePred P] {l nodes : List α}
    (hsub : l.Sublist nodes) (hnodup : nodes.Nodup) (hmem : ∀ x, x ∈ l ↔ x ∈ nodes ∧ P x) :
    l = nodes.filter P := by
  have hsame : l.Perm (nodes.filter P) := by
    refine (perm_ext_iff_of_nodup (hnodup.sublist hsub) (hnodup.filter _)).mpr fun x => ?_
    rw [hmem, mem_filter, decide_eq_true_eq]
  have hall : l.filter P = l := filter_eq_self.mpr fun x hx => decide_eq_true ((hmem x).mp hx).2
  have hle := hsub.filter (fun x => decide (P x))
  rw [hall] at hle
  exact hle.eq_of_length hsame.length_eq

section Step

variable {due : Option String} {pend evs : List PipelineEdge} {feeds : String → List NodeInteraction} {w : Walk}
variable {v id : String} {p : NodeInteraction}

theorem WalkInv.feeds_of_mem (h : WalkInv spec invokeNode userMsg due pend evs feeds w)
    (hp : p ∈ feeds v) : p ∈ w.recorded ∧ Feeds spec p v := by
  obtain ⟨hrec, hv, e, he, hfrom, hto, hne, hfires⟩ := (h.fed v p).mp hp
  have hmem := ((h.cover e).mp (.inl he)).1
  have hcount : spec.counted e = true :=
    (spec.counted_iff e).mpr ⟨hto ▸ hne, hfrom ▸ h.declared _ (h.recorded p hrec), hto ▸ hv⟩
  exact ⟨hrec, e, hmem, hcount, hfrom, hto, hfires⟩

/-- Once nothing is pending for a node, everything that feeds it has been passed on. -/
theorem WalkInv.feeds_eq_filter (h : WalkInv spec invokeNode userMsg due pend evs feeds w)
    (hturn : FedInTurn feeds w) (hv : spec.Declared v) (hzero : w.waiting v = 0) :
    feeds v = w.recorded.filter fun p => Feeds spec p v := by
  refine eq_filter_of_sublist (hturn v) (Nodup.of_map _ h.once) fun p => ⟨h.feeds_of_mem, ?_⟩
  rintro ⟨hrec, e, he, hcount, hfrom, hto, hfires⟩
  obtain ⟨hne, -, -⟩ := (spec.counted_iff e).mp hcount
  rcases (h.cover e).mpr ⟨he, hfrom ▸ h.recorded p hrec⟩ with hevs | hpend
  · exact (h.fed v p).mpr ⟨hrec, hv, e, hevs, hfrom, hto, hto ▸ hne, hfires⟩
  · -- a pending edge would keep the counter up
    have hpos : 0 < pendingCount pend v := by
      rw [pendingCount, countP_pos_iff]
      subst hto
      exact ⟨e, hpend, by simpa using hne⟩
    rw [h.waiting v hv] at hzero
    omega

theorem FedInTurn.pass (h : WalkInv spec invokeNode userMsg due pend evs feeds w) (hturn : FedInTurn feeds w)
    (hp : p ∈ w.recorded) (hnew : p ∉ feeds v)
    (hpass : Pass.InTurn spec ⟨p.nodeID, v, w.recorded⟩) :
    ∀ u, (update feeds v (feeds v ++ [p]) u).Sublist w.recorded := by
  intro u
  by_cases heq : u = v
  · subst heq
    rw [update_self]
    obtain ⟨before, after, hsplit⟩ := append_of_mem hp
    have honce := h.once
    have hsub := hturn u
    rw [hsplit] at honce hsub ⊢
    have hbefore : (feeds u).Sublist before := by
      refine .of_sublist_append_left (fun q hq hlater => ?_) hsub
      rcases mem_cons.mp hlater with rfl | hafter
      · exact hnew hq
      · refine hpass q ?_ (h.feeds_of_mem hq).2
        rw [hsplit]
        exact mem_ranSince honce hafter
    exact hbefore.append (singleton_sublist.mpr mem_cons_self)
  · rw [update_of_ne heq]
    exact hturn u

theorem runNode_input (hid : spec.Declared id) (w : Walk) :
    (runNode spec invokeNode userMsg id w).1.recorded = w.recorded ∨
      ∃ r, (runNode spec invokeNode userMsg id w).1.recorded = w.recorded ++ [r] ∧ r.nodeID = id ∧
        (¬ Root spec id → r.input = Strings.join (w.inputs id) blankLine) := by
  obtain ⟨node, hnode⟩ := Option.isSome_iff_exists.mp ((nodesByID_isSome spec id).mpr hid)
  have hinput : ¬ Root spec id →
      (if indegree spec id > 0 then Strings.join (w.inputs id) blankLine else userMsg) =
        Strings.join (w.inputs id) blankLine := by
    intro hroot
    have hne : indegree spec id ≠ 0 := fun hzero => hroot ((indegree_eq_zero_iff spec id).mp hzero)
    have hnonneg : 0 ≤ indegree spec id := by
      rw [indegree_eq]
      omega
    exact if_pos (by omega)
  unfold runNode
  dsimp only
  split
  · rw [hnode]
    split
    · exact .inr ⟨_, rfl, nodesByID_id spec hnode, hinput⟩
    · exact .inr ⟨_, rfl, nodesByID_id spec hnode, hinput⟩
  · exact .inl rfl

/-- A due node runs on the outputs of its parents in run order. -/
theorem runNode_joined (h : WalkInv spec invokeNode userMsg (some id) pend evs feeds w)
    (hturn : FedInTurn feeds w) (hjoined : Joined spec w.recorded) (hid : spec.Declared id)
    (hzero : w.waiting id = 0) :
    Joined spec (runNode spec invokeNode userMsg id
      { w with settled := update w.settled id true }).1.recorded := by
  rcases @runNode_input ε spec invokeNode userMsg id hid
      { w with settled := update w.settled id true } with hsame | ⟨r, hrec, rfl, hinput⟩
  · rw [hsame]
    exact hjoined
  · rw [hrec]
    refine hjoined.concat fun hroot => ?_
    rw [hinput hroot, ← h.feeds_eq_filter hturn hid hzero, ← h.inputs]

end Step

/-- A walk whose passes are in turn keeps what was passed on, and the joins, in run order. -/
theorem kept_inTurn : Kept spec invokeNode userMsg (Pass.InTurn spec) fun feeds recorded =>
    (∀ v, (feeds v).Sublist recorded) ∧ Joined spec recorded where
  pass h hJ hp hnew hpass := ⟨FedInTurn.pass h hJ.1 hp hnew hpass, hJ.2⟩
  run {id _ _ _ w} h hid hzero hJ := by
    refine ⟨fun v => (hJ.1 v).trans ?_, runNode_joined h hJ.1 hJ.2 hid hzero⟩
    rcases @runNode_input ε spec invokeNode userMsg id hid
      { w with settled := update w.settled id true } with hsame | ⟨r, hrec, -⟩
    · rw [hsame]
    · rw [hrec]
      exact sublist_append_left _ _

/-- In every run on an acyclic graph whose passes are all in turn, each join sees the outputs of the
parents whose edges fired, in the order in which these parents ran. -/
theorem runGraph_joined (doc : PipelineDefinition) (order : List String) (horder : IterationOrder doc.spec order)
    (hac : Acyclic doc.spec.Edge) (invokeNode : PipelineAgent → Bytes → Except ε Bytes) (userMsg : Bytes)
    (hpasses : ∀ x ∈ graphPasses doc.name doc.spec invokeNode userMsg, x.InTurn doc.spec) :
    ∃ nodes err, runGraph doc.name doc.spec invokeNode userMsg order = some (nodes, err) ∧
      Joined doc.spec nodes := by
  obtain ⟨nodes, err, hrun, ⟨feeds, hJ⟩, -⟩ := runGraph_keeps kept_inTurn doc.name horder hac
    ⟨fun _ => Sublist.refl _, joined_nil⟩ hpasses
  exact ⟨nodes, err, hrun, hJ.2⟩

theorem runGraph_joined_diamond :
    ∃ nodes err, runGraph diamond.name diamond.spec
        (fun node input => (.ok (Utf8.bytes node.id ++ input) : Except Unit Bytes)) [72]
        ["d", "b", "a", "c"] = some (nodes, err) ∧ Joined diamond.spec nodes :=
  runGraph_joined diamond ["d", "b", "a", "c"] diamond_order diamond_acyclic _ [72] (by decide +kernel)

/-- `a` feeds the join `d` after the walk has been through `b`, which feeds it too. -/
def shortcut : PipelineDefinition where
  apiVersion := agentAPIVersion
  kind := pipelineKind
  name := "shortcut"
  spec := {
    topology := .graph
    agents := [⟨"a", "r"⟩, ⟨"b", "r"⟩, ⟨"d", "r"⟩]
    edges := [⟨"a", "b", []⟩, ⟨"a", "d", []⟩, ⟨"b", "d", []⟩] }

theorem shortcut_acyclic : Acyclic shortcut.spec.Edge := by
  have horder : IterationOrder shortcut.spec ["a", "b", "d"] := by
    refine ⟨by decide, fun id => ?_⟩
    simp [shortcut, PipelineSpec.Declared]
  exact acyclic_of_cyclicNodes horder (by decide)

def shortcutNodes : List NodeInteraction :=
  [⟨⟨"a", "r", some (Utf8.bytes "a")⟩, [72]⟩, ⟨⟨"b", "r", some (Utf8.bytes "b")⟩, Utf8.bytes "a"⟩,
    ⟨⟨"d", "r", some (Utf8.bytes "d")⟩, Utf8.bytes "b\n\na"⟩]

/-- `a` runs before `b`, and `d` sees the output of `b` before that of `a`. -/
theorem shortcut_joined_in_reverse :
    Acyclic shortcut.spec.Edge ∧
    runGraph shortcut.name shortcut.spec
        (fun node _ => (.ok (Utf8.bytes node.id) : Except Unit Bytes)) [72] ["a", "b", "d"] =
      some (shortcutNodes, none) ∧
    ¬ Joined shortcut.spec shortcutNodes := by
  refine ⟨shortcut_acyclic, by decide +kernel, fun hjoined => ?_⟩
  have hroot : ¬ Root shortcut.spec "d" := fun h => h "b" ⟨⟨"b", "d", []⟩, by decide, by decide, rfl, rfl⟩
  have hinput := hjoined (shortcutNodes.take 2) ⟨⟨"d", "r", some (Utf8.bytes "d")⟩, Utf8.bytes "b\n\na"⟩ [] rfl hroot
  exact absurd hinput (by decide +kernel)

end MockAgents.Pipeline.Proofs
