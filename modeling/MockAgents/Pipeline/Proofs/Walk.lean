import MockAgents.Pipeline.Proofs.Kahn
/-!
# The depth-first walk

The invariant of the `settle` closure.  `pend` lists the edges of settled nodes
that some frame of the recursion still has to look at and `evs` those already
looked at, so a waiting counter is the number of counted edges from unsettled
nodes plus those in `pend`; `feeds v` are the interactions whose output has been
passed to `v`, in the order in which it was passed.
-/

namespace MockAgents.Pipeline.Proofs

open Lib Lib.Digraph Relation List Option Function

def content (r : NodeInteraction) : Bytes := r.response.getD []

variable {ε : Type} {spec : PipelineSpec}
  {invokeNode : PipelineAgent → Bytes → Except ε Bytes} {userMsg : Bytes}
variable {old old' : String → Prop} {w w' w₁ w₂ w₃ : Walk}
variable {f f' f₁ f₂ : String → List NodeInteraction} {pend : List PipelineEdge}

def Root (spec : PipelineSpec) (v : String) : Prop := ∀ u, ¬ spec.Edge u v

/-- An edge of a node that ran fires towards an undeclared id. -/
def DanglingFire (spec : PipelineSpec) (nodes : List NodeInteraction) : Prop :=
  ∃ r ∈ nodes, ∃ e ∈ spec.edges, e.fromID = r.nodeID ∧ e.fromID ≠ e.toID ∧
    ¬ spec.Declared e.toID ∧ e.fires (content r) = true

structure WalkInv (spec : PipelineSpec) (invokeNode : PipelineAgent → Bytes → Except ε Bytes)
    (userMsg : Bytes) (due : Option String) (pend evs : List PipelineEdge)
    (feeds : String → List NodeInteraction) (w : Walk) : Prop where
  declared : ∀ v, w.settled v = true → spec.Declared v
  cover : ∀ e, e ∈ evs ∨ e ∈ pend ↔ e ∈ spec.edges ∧ w.settled e.fromID = true
  waiting : ∀ v, spec.Declared v → w.waiting v =
    ((inCount spec (fun u => !w.settled u) v + pendingCount pend v : Nat) : Int)
  closed : ∀ v, w.settled v = true → w.waiting v = 0
  ready : ∀ v, spec.Declared v → ¬ Root spec v → w.waiting v = 0 → due ≠ some v →
    w.settled v = true
  inputs : ∀ v, w.inputs v = (feeds v).map content
  feedsNodup : ∀ v, (feeds v).Nodup
  fed : ∀ v p, p ∈ feeds v ↔ p ∈ w.recorded ∧ spec.Declared v ∧
    ∃ e ∈ evs, e.fromID = p.nodeID ∧ e.toID = v ∧ e.fromID ≠ v ∧ e.fires (content p) = true
  once : (w.recorded.map (·.nodeID)).Nodup
  recorded : ∀ r ∈ w.recorded, w.settled r.nodeID = true
  ran : ∀ v, w.settled v = true →
    ((∃ r ∈ w.recorded, r.nodeID = v) ↔ Root spec v ∨ feeds v ≠ [])
  output : ∀ r ∈ w.recorded, ∃ node, nodesByID spec r.nodeID = some node ∧
    r.agentName = node.ref ∧ r.response = some (content r) ∧
    invokeNode node r.input = .ok (content r)
  rootInput : ∀ r ∈ w.recorded, Root spec r.nodeID → r.input = userMsg
  joinInput : ∀ r ∈ w.recorded, ¬ Root spec r.nodeID →
    r.input = Strings.join ((feeds r.nodeID).map content) blankLine
  ordered : w.recorded.Pairwise fun a b => ¬ spec.Edge b.nodeID a.nodeID

theorem ne_of_settled {u v : String} (hu : w.settled u = true) (hv : w.settled v = false) : u ≠ v := by
  rintro rfl
  exact Bool.false_ne_true (hv.symm.trans hu)

theorem exists_mem_snoc {α : Type} {P : α → Prop} {l : List α} {a : α} (h : ¬ P a) :
    (∃ x ∈ l ++ [a], P x) ↔ ∃ x ∈ l, P x := by
  simp [or_and_right, exists_or, h]

/-- What a part of the walk that began in `w` and is done with the sources
`old` leaves alone. -/
structure Grows (old : String → Prop) (w : Walk) (feeds : String → List NodeInteraction)
    (w' : Walk) (feeds' : String → List NodeInteraction) : Prop where
  settled : ∀ v, w.settled v = true → w'.settled v = true
  recorded : ∃ new, w'.recorded = w.recorded ++ new ∧
    ∀ r ∈ new, w.settled r.nodeID = false
  feeds : ∀ v p, old p.nodeID → (p ∈ feeds' v ↔ p ∈ feeds v)

theorem Grows.of_eq (hset : w'.settled = w.settled)
    (hrec : w'.recorded = w.recorded) (hf : ∀ v p, old p.nodeID → (p ∈ f' v ↔ p ∈ f v)) :
    Grows old w f w' f' :=
  ⟨fun v hv => by rwa [hset], ⟨[], by rw [hrec, append_nil], by simp⟩, hf⟩

theorem Grows.refl : Grows old w f w f := .of_eq rfl rfl fun _ _ _ => Iff.rfl

theorem Grows.trans {f₃ : String → List NodeInteraction} (h₁ : Grows old w₁ f₁ w₂ f₂)
    (h₂ : Grows old w₂ f₂ w₃ f₃) : Grows old w₁ f₁ w₃ f₃ := by
  obtain ⟨new₁, hrec₁, hnew₁⟩ := h₁.recorded
  obtain ⟨new₂, hrec₂, hnew₂⟩ := h₂.recorded
  refine ⟨fun v hv => h₂.settled v (h₁.settled v hv), ⟨new₁ ++ new₂, ?_, ?_⟩,
    fun v p hp => (h₂.feeds v p hp).trans (h₁.feeds v p hp)⟩
  · rw [hrec₂, hrec₁, append_assoc]
  · intro r hr
    rcases mem_append.mp hr with hr | hr
    · exact hnew₁ r hr
    · exact Bool.eq_false_iff.mpr fun hs => ne_of_settled (h₁.settled _ hs) (hnew₂ r hr) rfl

theorem Grows.mono (h : Grows old w f w' f') (hold : ∀ u, old' u → old u) : Grows old' w f w' f' :=
  ⟨h.settled, h.recorded, fun v p hp => h.feeds v p (hold _ hp)⟩

/-- The ways a walk can fail, read off the interactions it leaves behind. -/
def Fault (spec : PipelineSpec) (invokeNode : PipelineAgent → Bytes → Except ε Bytes)
    (nodes : List NodeInteraction) : RunError ε → Prop
  | .node err => ∃ node input, invokeNode node input = .error err
  | .unknownNode _ _ => DanglingFire spec nodes
  | _ => False

/-- A part of the walk either failed or kept the invariant, with a property `J` of what was passed
to each node. -/
def Progress (spec : PipelineSpec) (invokeNode : PipelineAgent → Bytes → Except ε Bytes) (userMsg : Bytes)
    (J : (String → List NodeInteraction) → List NodeInteraction → Prop) (old : String → Prop)
    (pend : List PipelineEdge) (w : Walk) (feeds : String → List NodeInteraction) (w' : Walk) :
    Option (RunError ε) → Prop
  | some err => Fault spec invokeNode w'.recorded err ∧ ∃ feeds', J feeds' w'.recorded
  | none => ∃ evs' feeds', WalkInv spec invokeNode userMsg none pend evs' feeds' w' ∧
      Grows old w feeds w' feeds' ∧ J feeds' w'.recorded

theorem Progress.after {J : (String → List NodeInteraction) → List NodeInteraction → Prop}
    {err : Option (RunError ε)} (h : Progress spec invokeNode userMsg J old' pend w₂ f₂ w₃ err)
    (hg : Grows old w₁ f₁ w₂ f₂) (hold : ∀ u, old u → old' u) :
    Progress spec invokeNode userMsg J old pend w₁ f₁ w₃ err := by
  cases err with
  | some err => exact h
  | none =>
    obtain ⟨evs', feeds', hinv, hg', hJ⟩ := h
    exact ⟨evs', feeds', hinv, hg.trans (hg'.mono hold), hJ⟩

/-! ## Looking at one edge -/

section Step

variable {due : Option String} {e : PipelineEdge} {pend evs : List PipelineEdge}
  {feeds : String → List NodeInteraction} {w : Walk}

theorem WalkInv.cover_snoc (h : WalkInv spec invokeNode userMsg due (e :: pend) evs feeds w)
    (x : PipelineEdge) :
    x ∈ evs ++ [e] ∨ x ∈ pend ↔ x ∈ spec.edges ∧ w.settled x.fromID = true := by
  rw [← h.cover x]
  simp only [mem_append, mem_cons, not_mem_nil, or_false]
  tauto

/-- The walk skips self-loops and silent edges to undeclared ids. -/
theorem WalkInv.skip (h : WalkInv spec invokeNode userMsg due (e :: pend) evs feeds w)
    (hskip : e.fromID = e.toID ∨ ¬ spec.Declared e.toID) :
    WalkInv spec invokeNode userMsg due pend (evs ++ [e]) feeds w := by
  refine { h with cover := h.cover_snoc, waiting := fun v hv => ?_, fed := fun v p => ?_ }
  · rw [h.waiting v hv, pendingCount_cons_skip]
    exact hskip.imp_right fun hundecl heq => hundecl (heq ▸ hv)
  · rw [h.fed v p]
    refine and_congr_right fun _ => and_congr_right fun hv => ?_
    refine (exists_mem_snoc ?_).symm
    rintro ⟨-, rfl, hne, -⟩
    exact hskip.elim hne fun hundecl => hundecl hv

/-- A due node that is settled, or not ready after all, is no exception. -/
theorem WalkInv.undue {id : String} (h : WalkInv spec invokeNode userMsg (some id) pend evs feeds w)
    (hid : w.waiting id = 0 → w.settled id = true) :
    WalkInv spec invokeNode userMsg none pend evs feeds w := by
  refine { h with ready := fun v hv hroot hzero _ => ?_ }
  by_cases heq : v = id
  · rw [heq] at hzero ⊢
    exact hid hzero
  · exact h.ready v hv hroot hzero (by simpa using Ne.symm heq)

theorem WalkInv.unsettled (h : WalkInv spec invokeNode userMsg due (e :: pend) evs feeds w)
    (hloop : e.fromID ≠ e.toID) (hto : spec.Declared e.toID) : w.settled e.toID = false := by
  cases hs : w.settled e.toID with
  | false => rfl
  | true =>
    have hzero := h.closed e.toID hs
    rw [h.waiting e.toID hto, pendingCount_cons_self hloop] at hzero
    omega

/-- The target's counter drops; its due settling is the caller's next step.
`p` is the interaction whose output the edge passes on, if it passes one. -/
theorem WalkInv.arrive (h : WalkInv spec invokeNode userMsg none (e :: pend) evs feeds w)
    (hloop : e.fromID ≠ e.toID) (hto : spec.Declared e.toID) (feed : Option NodeInteraction)
    (hsome : ∀ p, feed = some p → p ∈ w.recorded ∧ p.nodeID = e.fromID ∧
      e.fires (content p) = true ∧ p ∉ feeds e.toID)
    (hnone : feed = none → ∀ p ∈ w.recorded, p.nodeID = e.fromID →
      e.fires (content p) = true → p ∈ feeds e.toID) :
    WalkInv spec invokeNode userMsg (some e.toID) pend (evs ++ [e])
      (Function.update feeds e.toID (feeds e.toID ++ feed.toList))
      { w with
        inputs := Function.update w.inputs e.toID
          (w.inputs e.toID ++ feed.toList.map content)
        waiting := Function.update w.waiting e.toID (w.waiting e.toID - 1) } := by
  have hopen := h.unsettled hloop hto
  have hkeep : ∀ v, w.settled v = true →
      Function.update feeds e.toID (feeds e.toID ++ feed.toList) v = feeds v := by
    exact fun v hv => update_of_ne (ne_of_settled hv hopen) _ _
  refine { h with
    cover := h.cover_snoc, waiting := ?_, closed := ?_, ready := ?_, inputs := ?_,
    feedsNodup := ?_, fed := ?_, ran := ?_, joinInput := ?_ }
  · intro v hv
    by_cases heq : v = e.toID
    · subst heq
      simp only [update_self]
      rw [h.waiting e.toID hv, pendingCount_cons_self hloop]
      omega
    · simp only [update_of_ne heq]
      rw [h.waiting v hv, pendingCount_cons_skip (.inr (Ne.symm heq))]
  · intro v hv
    simp only [update_of_ne (ne_of_settled hv hopen)]
    exact h.closed v hv
  · intro v hv hroot hzero hdue
    have hne : v ≠ e.toID := fun heq => hdue (by rw [heq])
    simp only [update_of_ne hne] at hzero
    exact h.ready v hv hroot hzero (by simp)
  · intro v
    by_cases heq : v = e.toID
    · subst heq
      simp [h.inputs]
    · simp only [update_of_ne heq, h.inputs]
  · intro v
    by_cases heq : v = e.toID
    · subst heq
      rw [update_self]
      cases feed with
      | none => simpa using h.feedsNodup e.toID
      | some p =>
        rw [toList_some, ← concat_eq_append]
        exact (h.feedsNodup e.toID).concat (hsome p rfl).2.2.2
    · rw [update_of_ne heq]
      exact h.feedsNodup v
  · intro v p
    by_cases heq : v = e.toID
    · subst heq
      rw [update_self, mem_append, h.fed]
      constructor
      · rintro (⟨hp, hv, x, hx, hrest⟩ | hp)
        · exact ⟨hp, hv, x, mem_append_left _ hx, hrest⟩
        · obtain ⟨hrec, hid, hfires, _⟩ := hsome p (by simpa using hp)
          exact ⟨hrec, hto, e, by simp, hid.symm, rfl, hloop, hfires⟩
      · rintro ⟨hp, hv, x, hx, hfrom, hxto, hne, hfires⟩
        rcases mem_append.mp hx with hx | hx
        · exact .inl ⟨hp, hv, x, hx, hfrom, hxto, hne, hfires⟩
        · rw [mem_singleton] at hx
          subst hx
          cases feed with
          | none =>
            exact .inl ((h.fed _ p).mp (hnone rfl p hp hfrom.symm hfires))
          | some q =>
            obtain ⟨hq, hqid, _, _⟩ := hsome q rfl
            have hpq : p = q :=
              inj_on_of_nodup_map h.once hp hq (hfrom.symm.trans hqid.symm)
            exact .inr (by simp [hpq])
    · rw [update_of_ne heq, h.fed]
      refine and_congr_right fun _ => and_congr_right fun _ => (exists_mem_snoc ?_).symm
      exact fun hx => heq hx.2.1.symm
  · intro v hv
    rw [hkeep v hv]
    exact h.ran v hv
  · intro r hr hroot
    rw [hkeep r.nodeID (h.recorded r hr)]
    exact h.joinInput r hr hroot

end Step

/-! ## Settling a node -/

section Settle

variable {pend evs : List PipelineEdge} {feeds : String → List NodeInteraction} {w : Walk}
  {id : String}

/-- A node that becomes settled hands its edges to the walk.  `new` is its
interaction, if it ran. -/
theorem WalkInv.enter (h : WalkInv spec invokeNode userMsg (some id) pend evs feeds w)
    (hid : spec.Declared id) (hopen : w.settled id = false) (hzero : w.waiting id = 0)
    (new : Option NodeInteraction)
    (hsome : ∀ r, new = some r → r.nodeID = id ∧ (Root spec id ∨ feeds id ≠ []) ∧
      (∃ node, nodesByID spec id = some node ∧ r.agentName = node.ref ∧
        r.response = some (content r) ∧ invokeNode node r.input = .ok (content r)) ∧
      (Root spec id → r.input = userMsg) ∧
      (¬ Root spec id → r.input = Strings.join ((feeds id).map content) blankLine))
    (hnone : new = none → ¬ (Root spec id ∨ feeds id ≠ [])) :
    WalkInv spec invokeNode userMsg none (outgoing spec id ++ pend) evs feeds
      { w with
        settled := Function.update w.settled id true
        recorded := w.recorded ++ new.toList } := by
  have hne : ∀ v, w.settled v = true → v ≠ id := fun v hv => ne_of_settled hv hopen
  have hset : ∀ v, Function.update w.settled id true v = true ↔ v = id ∨ w.settled v = true := by
    intro v
    by_cases heq : v = id
    · simp [heq]
    · simp [heq]
  have hmem : ∀ r, r ∈ w.recorded ++ new.toList → r ∈ w.recorded ∨ new = some r := by
    intro r hr
    rcases mem_append.mp hr with hr | hr
    · exact .inl hr
    · exact .inr (by simpa using hr)
  -- a settled node has no unsettled parent, in particular not `id`
  have hparent : ∀ r ∈ w.recorded, ¬ spec.Edge id r.nodeID := by
    intro r hr hedge
    have hs := h.recorded r hr
    have hpos : 0 < inCount spec (fun u => !w.settled u) r.nodeID :=
      inCount_pos_iff.mpr ⟨id, by simp [hopen], hedge⟩
    have hw := h.waiting r.nodeID (h.declared _ hs)
    rw [h.closed _ hs] at hw
    omega
  refine ⟨?_, ?_, ?_, ?_, ?_, h.inputs, h.feedsNodup, ?_, ?_, ?_, ?_, ?_, ?_, ?_, ?_⟩
  · intro v hv
    rcases (hset v).mp hv with rfl | hv
    · exact hid
    · exact h.declared v hv
  · intro e
    simp only [mem_append, mem_outgoing, hset]
    rw [or_left_comm, h.cover e]
    tauto
  · intro v hv
    have hopen' : (fun u => !w.settled u) id = true := by simp [hopen]
    have hfun : (fun u => !w.settled u && u != id) =
        fun u => !Function.update w.settled id true u := by
      funext u
      by_cases heq : u = id
      · simp [heq]
      · simp [heq]
    simp only [← hfun]
    rw [h.waiting v hv, inCount_erase hopen' hid hv]
    simp only [pendingCount, countP_append]
    omega
  · intro v hv
    rcases (hset v).mp hv with rfl | hv
    · exact hzero
    · exact h.closed v hv
  · intro v hv hroot hwait _
    apply (hset v).mpr
    by_cases heq : v = id
    · exact .inl heq
    · exact .inr (h.ready v hv hroot hwait (by simpa using Ne.symm heq))
  · intro v p
    rw [h.fed v p]
    constructor
    · rintro ⟨hp, hrest⟩
      exact ⟨mem_append_left _ hp, hrest⟩
    · rintro ⟨hp, hv, e, he, hfrom, hrest⟩
      rcases hmem p hp with hp | hp
      · exact ⟨hp, hv, e, he, hfrom, hrest⟩
      · have hs := ((h.cover e).mp (.inl he)).2
        exact absurd (hfrom.trans (hsome p hp).1) (hne _ hs)
  · cases new with
    | none => simpa using h.once
    | some r =>
      rw [toList_some, map_append, map_singleton, ← concat_eq_append]
      apply h.once.concat
      intro hr
      obtain ⟨q, hq, hqr⟩ := mem_map.mp hr
      exact hne _ (h.recorded q hq) (hqr.trans (hsome r rfl).1)
  · intro r hr
    rcases hmem r hr with hr | hr
    · exact (hset _).mpr (.inr (h.recorded r hr))
    · exact (hset _).mpr (.inl (hsome r hr).1)
  · intro v hv
    rcases (hset v).mp hv with rfl | hv
    · cases new with
      | none =>
        refine iff_of_false ?_ (hnone rfl)
        rintro ⟨r, hr, hrv⟩
        exact hne _ (h.recorded r (by simpa using hr)) hrv
      | some r =>
        exact iff_of_true ⟨r, by simp, (hsome r rfl).1⟩ (hsome r rfl).2.1
    · rw [← h.ran v hv]
      constructor
      · rintro ⟨r, hr, hrv⟩
        rcases hmem r hr with hr | hr
        · exact ⟨r, hr, hrv⟩
        · exact absurd (hrv.symm.trans (hsome r hr).1) (hne v hv)
      · rintro ⟨r, hr, hrv⟩
        exact ⟨r, mem_append_left _ hr, hrv⟩
  · intro r hr
    rcases hmem r hr with hr | hr
    · exact h.output r hr
    · rw [(hsome r hr).1]
      exact (hsome r hr).2.2.1
  · intro r hr hroot
    rcases hmem r hr with hr | hr
    · exact h.rootInput r hr hroot
    · exact (hsome r hr).2.2.2.1 ((hsome r hr).1 ▸ hroot)
  · intro r hr hroot
    rcases hmem r hr with hr | hr
    · exact h.joinInput r hr hroot
    · have hrid := (hsome r hr).1
      rw [hrid] at hroot ⊢
      exact (hsome r hr).2.2.2.2 hroot
  · rw [pairwise_append]
    refine ⟨h.ordered, by cases new <;> simp, fun a ha b hb => ?_⟩
    rw [(hsome b (by simpa using hb)).1]
    exact hparent a ha

/-- The frame of a settled node: what its edge loop knows about its output. -/
def Frame (w : Walk) (id : String) (ran : Bool) (out : Bytes) : Prop :=
  w.settled id = true ∧
    ((ran = true ∧ ∃ p ∈ w.recorded, p.nodeID = id ∧ content p = out) ∨
      (ran = false ∧ ∀ p ∈ w.recorded, p.nodeID ≠ id))

theorem runNode_spec (h : WalkInv spec invokeNode userMsg (some id) pend evs feeds w)
    (hid : spec.Declared id) (hopen : w.settled id = false) (hzero : w.waiting id = 0) :
    ∃ w', (∃ err node input, runNode spec invokeNode userMsg id
          { w with settled := Function.update w.settled id true } = (w', .error err) ∧
        invokeNode node input = .error err) ∨
      (∃ ran out, runNode spec invokeNode userMsg id
          { w with settled := Function.update w.settled id true } = (w', .ok (ran, out)) ∧
        WalkInv spec invokeNode userMsg none (outgoing spec id ++ pend) evs feeds w' ∧
        Frame w' id ran out ∧ w'.settled = Function.update w.settled id true ∧
        ∃ new, w'.recorded = w.recorded ++ new ∧ ∀ r ∈ new, r.nodeID = id) := by
  obtain ⟨node, hnode⟩ := isSome_iff_exists.mp ((nodesByID_isSome spec id).mpr hid)
  have hroot : Root spec id ↔ indegree spec id = 0 := (indegree_eq_zero_iff spec id).symm
  have hnonneg : 0 ≤ indegree spec id := by
    rw [indegree_eq]
    omega
  have hran : (indegree spec id == 0 || !(w.inputs id).isEmpty) = true ↔
      Root spec id ∨ feeds id ≠ [] := by
    rw [h.inputs, hroot]
    simp
  unfold runNode
  by_cases hr : (indegree spec id == 0 || !(w.inputs id).isEmpty) = true
  · simp only [hr, if_true, hnode, getD_some]
    generalize hin : (if indegree spec id > 0 then Strings.join (w.inputs id) blankLine
      else userMsg) = input
    cases hinv : invokeNode node input with
    | error err => exact ⟨_, .inl ⟨err, node, input, rfl, hinv⟩⟩
    | ok out =>
      have hent := h.enter hid hopen hzero
        (some ⟨⟨node.id, node.ref, some out⟩, input⟩) (by
          intro r hr'
          obtain rfl := some.inj hr'
          refine ⟨nodesByID_id spec hnode, hran.mp hr,
            ⟨node, hnode, rfl, rfl, hinv⟩, fun hrt => ?_, fun hrt => ?_⟩
          · rw [hroot] at hrt
            simpa [hrt] using hin.symm
          · rw [hroot] at hrt
            have hpos : indegree spec id > 0 := by omega
            rw [← hin, if_pos hpos, h.inputs]) (by simp)
      refine ⟨_, .inr ⟨true, out, rfl, hent, ⟨by simp, .inl ⟨rfl, ?_⟩⟩, rfl, _, rfl, ?_⟩⟩
      · exact ⟨⟨⟨node.id, node.ref, some out⟩, input⟩, by simp, nodesByID_id spec hnode, rfl⟩
      · intro r hr'
        rw [mem_singleton] at hr'
        rw [hr']
        exact nodesByID_id spec hnode
  · have hent := h.enter hid hopen hzero none (by simp)
      (fun _ hcon => hr (hran.mpr hcon))
    simp only [toList_none, append_nil] at hent
    rw [if_neg hr]
    exact ⟨_, .inr ⟨false, [], rfl, hent, ⟨by simp, .inr ⟨rfl, fun p hp =>
      ne_of_settled (h.recorded p hp) hopen⟩⟩, rfl, [], by simp, by simp⟩⟩

end Settle

/-! ## Passes -/

/-- The state before an output is passed on: the node it is of, the node it goes to, and the
interactions so far. -/
structure Pass where
  source : String
  target : String
  recorded : List NodeInteraction

section Passes

variable (pipeline : String) (spec : PipelineSpec)
  (invokeNode : PipelineAgent → Bytes → Except ε Bytes) (userMsg : Bytes)

/-- The passes of `walkEdges`, in order, those of the nested calls included. -/
def edgePasses (settle : String → Walk → Option (Walk × Option (RunError ε)))
    (passes : String → Walk → List Pass) (id : String) (ran : Bool) (content : Bytes) :
    List PipelineEdge → List String → Walk → List Pass
  | [], _, _ => []
  | e :: es, fed, w =>
    if e.fromID = e.toID then edgePasses settle passes id ran content es fed w
    else
      let fires := ran && e.fires content
      if (nodesByID spec e.toID).isNone then
        if fires then [] else edgePasses settle passes id ran content es fed w
      else
        let feed := fires && !fed.contains e.toID
        let now := if feed then [⟨id, e.toID, w.recorded⟩] else []
        let fed := if feed then e.toID :: fed else fed
        let inputs := if feed then
          Function.update w.inputs e.toID (w.inputs e.toID ++ [content]) else w.inputs
        let w := { w with
          inputs := inputs
          waiting := Function.update w.waiting e.toID (w.waiting e.toID - 1) }
        if w.waiting e.toID = 0 then
          now ++ passes e.toID w ++
            match settle e.toID w with
            | some (w, none) => edgePasses settle passes id ran content es fed w
            | _ => []
        else now ++ edgePasses settle passes id ran content es fed w

def settlePasses : Nat → String → Walk → List Pass
  | 0, _, _ => []
  | fuel + 1, id, w =>
    if w.settled id then []
    else
      match runNode spec invokeNode userMsg id
          { w with settled := Function.update w.settled id true } with
      | (_, .error _) => []
      | (w, .ok (ran, content)) =>
        edgePasses spec (settle pipeline spec invokeNode userMsg fuel) (settlePasses fuel) id ran
          content (outgoing spec id) [] w

def rootPasses (settle : String → Walk → Option (Walk × Option (RunError ε)))
    (passes : String → Walk → List Pass) : List PipelineAgent → Walk → List Pass
  | [], _ => []
  | n :: ns, w =>
    if indegree spec n.id = 0 then
      passes n.id w ++
        match settle n.id w with
        | some (w, none) => rootPasses settle passes ns w
        | _ => []
    else rootPasses settle passes ns w

def graphPasses : List Pass :=
  rootPasses spec (settle pipeline spec invokeNode userMsg (spec.agents.length + 1))
    (settlePasses pipeline spec invokeNode userMsg (spec.agents.length + 1)) spec.agents (Walk.start spec)

end Passes

/-- A property of what was passed to each node that every run of a node keeps, and every pass
that is `ok`. -/
structure Kept (spec : PipelineSpec) (invokeNode : PipelineAgent → Bytes → Except ε Bytes) (userMsg : Bytes)
    (ok : Pass → Prop) (J : (String → List NodeInteraction) → List NodeInteraction → Prop) : Prop where
  pass : ∀ {due pend evs feeds} {w : Walk} {v p}, WalkInv spec invokeNode userMsg due pend evs feeds w →
    J feeds w.recorded → p ∈ w.recorded → p ∉ feeds v → ok ⟨p.nodeID, v, w.recorded⟩ →
    J (Function.update feeds v (feeds v ++ [p])) w.recorded
  run : ∀ {id pend evs feeds} {w : Walk}, WalkInv spec invokeNode userMsg (some id) pend evs feeds w →
    spec.Declared id → w.waiting id = 0 → J feeds w.recorded →
    J feeds (runNode spec invokeNode userMsg id
      { w with settled := Function.update w.settled id true }).1.recorded

/-! ## The recursion -/

/-- Agents that are still to settle: the measure of the recursion. -/
def openCount (spec : PipelineSpec) (w : Walk) : Nat :=
  spec.agents.countP fun a => !w.settled a.id

theorem openCount_mono (h : ∀ v, w.settled v = true → w'.settled v = true) :
    openCount spec w' ≤ openCount spec w := by
  apply countP_mono_left
  intro a _ ha
  cases hs : w.settled a.id with
  | false => rfl
  | true => simp [h _ hs] at ha

/-- What a call of `settle` at a due node delivers, given `fuel`. -/
def Settles (spec : PipelineSpec) (invokeNode : PipelineAgent → Bytes → Except ε Bytes)
    (userMsg : Bytes) (ok : Pass → Prop)
    (J : (String → List NodeInteraction) → List NodeInteraction → Prop) (fuel : Nat)
    (settle : String → Walk → Option (Walk × Option (RunError ε))) (passes : String → Walk → List Pass) :
    Prop :=
  ∀ id w pend evs feeds, WalkInv spec invokeNode userMsg (some id) pend evs feeds w →
    spec.Declared id → w.waiting id = 0 → openCount spec w < fuel → J feeds w.recorded →
    (∀ x ∈ passes id w, ok x) →
    ∃ w' err, settle id w = some (w', err) ∧ (err = none → w'.settled id = true) ∧
      Progress spec invokeNode userMsg J (fun u => w.settled u = true) pend w feeds w' err

variable {ok : Pass → Prop} {J : (String → List NodeInteraction) → List NodeInteraction → Prop}
  {call : String → Walk → Option (Walk × Option (RunError ε))} {passes : String → Walk → List Pass}
variable {id : String} {ran : Bool} {out : Bytes} {evs : List PipelineEdge}
variable {feeds : String → List NodeInteraction} {fuel : Nat} {order : List String}

/-- The bookkeeping of one edge to a declared node, as `walkEdges` does it. -/
theorem Frame.arrive {e : PipelineEdge} {fed : List String} (hframe : Frame w id ran out)
    (h : WalkInv spec invokeNode userMsg none (e :: pend) evs feeds w)
    (hfrom : e.fromID = id) (hloop : e.fromID ≠ e.toID) (hto : spec.Declared e.toID)
    (hfed : ∀ v, spec.Declared v → (v ∈ fed ↔ ∃ p ∈ feeds v, p.nodeID = id))
    {feed : Bool} (hfeed : feed = (ran && e.fires out && !fed.contains e.toID)) :
    ∃ feeds', WalkInv spec invokeNode userMsg (some e.toID) pend (evs ++ [e]) feeds'
        { w with
          inputs := if feed = true then
            Function.update w.inputs e.toID (w.inputs e.toID ++ [out]) else w.inputs
          waiting := Function.update w.waiting e.toID (w.waiting e.toID - 1) } ∧
      (∀ v, spec.Declared v → (v ∈ (if feed = true then e.toID :: fed else fed) ↔
        ∃ p ∈ feeds' v, p.nodeID = id)) ∧
      (∀ v p, p.nodeID ≠ id → (p ∈ feeds' v ↔ p ∈ feeds v)) ∧
      ((feed = false ∧ feeds' = feeds) ∨ (feed = true ∧ ∃ p ∈ w.recorded, p.nodeID = id ∧
        p ∉ feeds e.toID ∧ feeds' = Function.update feeds e.toID (feeds e.toID ++ [p]))) := by
  subst hfrom
  cases feed with
  | true =>
    simp only [Bool.true_eq, Bool.and_eq_true, Bool.not_eq_true', contains_eq_mem,
      decide_eq_false_iff_not] at hfeed
    obtain ⟨⟨hran, hfires⟩, hnew⟩ := hfeed
    rcases hframe.2 with ⟨_, p, hp, hpid, hpout⟩ | ⟨hran', _⟩
    · have hnot : ∀ q ∈ feeds e.toID, q.nodeID ≠ e.fromID :=
        fun q hq hqid => hnew ((hfed e.toID hto).mpr ⟨q, hq, hqid⟩)
      have harr := h.arrive hloop hto (some p) (by
        intro q hq
        obtain rfl := some.inj hq
        exact ⟨hp, hpid, hpout ▸ hfires, fun hq => hnot p hq hpid⟩) (by simp)
      rw [toList_some, map_singleton, hpout] at harr
      refine ⟨_, harr, fun v hv => ?_, fun v q hq => ?_,
        .inr ⟨rfl, p, hp, hpid, fun hq => hnot p hq hpid, rfl⟩⟩
      · by_cases heq : v = e.toID
        · subst heq
          simp only [if_true, mem_cons, true_or, update_self, true_iff]
          exact ⟨p, by simp, hpid⟩
        · simp [heq, hfed v hv]
      · by_cases heq : v = e.toID
        · subst heq
          have hne : q ≠ p := fun heq => hq (heq ▸ hpid)
          simp [hne]
        · rw [update_of_ne heq]
    · exact absurd (hran'.symm.trans hran) Bool.false_ne_true
  | false =>
    have harr := h.arrive hloop hto none (by simp) (by
      intro _ p hp hpid hfires
      rcases hframe.2 with ⟨hran, q, hq, hqid, hqout⟩ | ⟨_, hnot⟩
      · have hpq : p = q := inj_on_of_nodup_map h.once hp hq (hpid.trans hqid.symm)
        subst hpq
        rw [hran, ← hqout, hfires] at hfeed
        have hmem : e.toID ∈ fed := by simpa using hfeed.symm
        obtain ⟨r, hr, hrid⟩ := (hfed e.toID hto).mp hmem
        have hrec := ((h.fed e.toID r).mp hr).1
        exact inj_on_of_nodup_map h.once hp hrec (hpid.trans hrid.symm) ▸ hr
      · exact absurd hpid (hnot p hp))
    rw [toList_none, map_nil, append_nil, append_nil, update_eq_self, update_eq_self] at harr
    exact ⟨feeds, harr, fun v hv => hfed v hv, fun _ _ _ => Iff.rfl, .inl ⟨rfl, rfl⟩⟩

theorem Frame.grows {feeds' : String → List NodeInteraction} (h : Frame w id ran out)
    (hg : Grows old w feeds w' feeds') : Frame w' id ran out := by
  obtain ⟨new, hrec, hnew⟩ := hg.recorded
  refine ⟨hg.settled id h.1, h.2.imp ?_ ?_⟩
  · rintro ⟨hran, p, hp, hrest⟩
    exact ⟨hran, p, by rw [hrec]; exact mem_append_left _ hp, hrest⟩
  · rintro ⟨hran, hnot⟩
    refine ⟨hran, fun p hp heq => ?_⟩
    rw [hrec] at hp
    rcases mem_append.mp hp with hp | hp
    · exact hnot p hp heq
    · exact ne_of_settled h.1 (hnew p hp) heq.symm

/-- An edge loop inside the frame of `id` keeps the invariant; only `id`'s own
output is passed on at this level. -/
theorem walkEdges_spec (hkept : Kept spec invokeNode userMsg ok J) (pipeline : String)
    (hsettle : Settles spec invokeNode userMsg ok J fuel call passes)
    (es : List PipelineEdge) (pend evs : List PipelineEdge)
    (feeds : String → List NodeInteraction) (fed : List String) (w : Walk)
    (hes : ∀ e ∈ es, e ∈ spec.edges ∧ e.fromID = id)
    (h : WalkInv spec invokeNode userMsg none (es ++ pend) evs feeds w)
    (hframe : Frame w id ran out)
    (hfed : ∀ v, spec.Declared v → (v ∈ fed ↔ ∃ p ∈ feeds v, p.nodeID = id))
    (hfuel : openCount spec w < fuel) (hJ : J feeds w.recorded)
    (hok : ∀ x ∈ edgePasses spec call passes id ran out es fed w, ok x) :
    ∃ w' err, walkEdges pipeline spec call ran out es fed w = some (w', err) ∧
      Progress spec invokeNode userMsg J (fun u => w.settled u = true ∧ u ≠ id) pend w feeds
        w' err := by
  induction es generalizing evs feeds fed w with
  | nil =>
    exact ⟨w, none, rfl, evs, feeds, h, .refl, hJ⟩
  | cons e es ih =>
    obtain ⟨he, hefrom⟩ := hes e mem_cons_self
    have hes' : ∀ x ∈ es, x ∈ spec.edges ∧ x.fromID = id :=
      fun x hx => hes x (mem_cons_of_mem e hx)
    rw [walkEdges]
    rw [edgePasses] at hok
    by_cases hloop : e.fromID = e.toID
    · rw [if_pos hloop] at hok ⊢
      exact ih _ _ _ _ hes' (h.skip (.inl hloop)) hframe hfed hfuel hJ hok
    · rw [if_neg hloop] at hok ⊢
      by_cases hto : spec.Declared e.toID
      · have hknown : (nodesByID spec e.toID).isNone = false := by
          rw [Bool.eq_false_iff, ne_eq, nodesByID_isNone]
          exact not_not_intro hto
        simp only [hknown, Bool.false_eq_true, if_false] at hok ⊢
        generalize hfeed : (ran && e.fires out && !fed.contains e.toID) = feed at hok ⊢
        obtain ⟨feeds₁, h₁, hfed₁, hstable₁, hshape⟩ :=
          hframe.arrive h hefrom hloop hto hfed hfeed.symm
        have hJ₁ : (∀ x ∈ (if feed = true then [(⟨id, e.toID, w.recorded⟩ : Pass)] else []), ok x) →
            J feeds₁ w.recorded := by
          intro hnow
          rcases hshape with ⟨-, rfl⟩ | ⟨hfeeds, p, hp, hpid, hnew, rfl⟩
          · exact hJ
          · refine hkept.pass h hJ hp hnew ?_
            rw [hpid]
            exact hnow _ (by simp [hfeeds])
        split
        · next hzero =>
          rw [if_pos hzero] at hok
          simp only [forall_mem_append] at hok
          obtain ⟨⟨hnow, hnested⟩, hlater⟩ := hok
          obtain ⟨w₂, err, hcall, _, hprog⟩ :=
            hsettle e.toID _ _ _ _ h₁ hto hzero hfuel (hJ₁ hnow) hnested
          rw [hcall] at hlater ⊢
          cases err with
          | some err => exact ⟨w₂, some err, rfl, hprog⟩
          | none =>
            obtain ⟨evs₂, feeds₂, h₂, hgrow₂, hJ₂⟩ := hprog
            have hold : ∀ u, w.settled u = true ∧ u ≠ id → w.settled u = true :=
              fun _ hu => hu.1
            have hgrow : Grows (fun u => w.settled u = true ∧ u ≠ id) w feeds w₂ feeds₂ := by
              refine Grows.trans ?_ (hgrow₂.mono hold)
              exact Grows.of_eq rfl rfl fun v p hp => hstable₁ v p hp.2
            have hfed₂ : ∀ v, spec.Declared v →
                (v ∈ (if feed = true then e.toID :: fed else fed) ↔
                  ∃ p ∈ feeds₂ v, p.nodeID = id) := by
              intro v hv
              rw [hfed₁ v hv]
              refine exists_congr fun p => and_congr_left fun hp => ?_
              exact (hgrow₂.feeds v p (hp ▸ hframe.1)).symm
            obtain ⟨w₃, err, hrest, hprog⟩ := ih evs₂ feeds₂ _ w₂ hes' h₂
              (hframe.grows hgrow) hfed₂
              (Nat.lt_of_le_of_lt (openCount_mono hgrow₂.settled) hfuel) hJ₂ hlater
            exact ⟨w₃, err, hrest, hprog.after hgrow fun u hu =>
              ⟨hgrow.settled u hu.1, hu.2⟩⟩
        · next hwait =>
          rw [if_neg hwait] at hok
          simp only [forall_mem_append] at hok
          have hready := h₁.undue fun hzero => absurd hzero hwait
          obtain ⟨w₃, err, hrest, hprog⟩ :=
            ih _ feeds₁ _ _ hes' hready hframe hfed₁ hfuel (hJ₁ hok.1) hok.2
          exact ⟨w₃, err, hrest, hprog.after
            (Grows.of_eq rfl rfl fun v p hp => hstable₁ v p hp.2) fun _ hu => hu⟩
      · simp only [(nodesByID_isNone spec e.toID).mpr hto, if_true] at hok ⊢
        by_cases hfires : (ran && e.fires out) = true
        · rw [if_pos hfires]
          rw [Bool.and_eq_true] at hfires
          refine ⟨w, _, rfl, ?_, feeds, hJ⟩
          rcases hframe.2 with ⟨_, p, hp, hpid, hpout⟩ | ⟨hran, _⟩
          · exact ⟨p, hp, e, he, hefrom.trans hpid.symm, hloop, hto, hpout ▸ hfires.2⟩
          · exact absurd (hran.symm.trans hfires.1) Bool.false_ne_true
        · rw [if_neg hfires] at hok ⊢
          exact ih _ _ _ _ hes' (h.skip (.inr hto)) hframe hfed hfuel hJ hok

theorem settle_settles (hkept : Kept spec invokeNode userMsg ok J) (pipeline : String) (fuel : Nat) :
    Settles spec invokeNode userMsg ok J fuel (settle pipeline spec invokeNode userMsg fuel)
      (settlePasses pipeline spec invokeNode userMsg fuel) := by
  induction fuel with
  | zero =>
    intro id w pend evs feeds _ _ _ hfuel
    exact absurd hfuel (Nat.not_lt_zero _)
  | succ fuel ih =>
    intro id w pend evs feeds h hid hzero hfuel hJ hok
    rw [settle]
    rw [settlePasses] at hok
    cases hs : w.settled id with
    | true =>
      exact ⟨w, none, rfl, fun _ => hs, evs, feeds, h.undue fun _ => hs, .refl, hJ⟩
    | false =>
      rw [if_neg (by rw [hs]; exact Bool.false_ne_true)] at hok
      rw [if_neg Bool.false_ne_true]
      have hJ₁ := hkept.run h hid hzero hJ
      obtain ⟨w₁, ⟨err, node, input, hrun, herr⟩ | ⟨ran, out, hrun, h₁, hframe, hset, hnew⟩⟩ :=
        runNode_spec h hid hs hzero
      · rw [hrun] at hJ₁ ⊢
        exact ⟨w₁, _, rfl, by simp, ⟨node, input, herr⟩, feeds, hJ₁⟩
      · rw [hrun] at hJ₁ hok ⊢
        have hsettled : ∀ v, w.settled v = true → w₁.settled v = true := by
          intro v hv
          rw [hset]
          by_cases heq : v = id
          · simp [heq]
          · rwa [update_of_ne heq]
        have hgrow : Grows (fun u => w.settled u = true) w feeds w₁ feeds := by
          obtain ⟨new, hrec, hid'⟩ := hnew
          exact ⟨hsettled, ⟨new, hrec, fun r hr => hid' r hr ▸ hs⟩, fun _ _ _ => Iff.rfl⟩
        -- nothing was fed from `id` while it was unsettled
        have hfed : ∀ v, spec.Declared v → (v ∈ ([] : List String) ↔
            ∃ p ∈ feeds v, p.nodeID = id) := by
          intro v _
          refine iff_of_false not_mem_nil ?_
          rintro ⟨p, hp, heq⟩
          exact ne_of_settled (h.recorded p ((h.fed v p).mp hp).1) hs heq
        have hlt : openCount spec w₁ < fuel := by
          have hdrop : openCount spec w₁ < openCount spec w := by
            refine countP_id_lt (p := fun v => !w.settled v)
              (q := fun v => !w₁.settled v) hid (by simp [hs]) (by simp [hframe.1]) ?_
            intro v hv
            cases hv' : w.settled v with
            | false => rfl
            | true => simp [hsettled v hv'] at hv
          omega
        obtain ⟨w₂, err, hwalk, hprog⟩ := walkEdges_spec hkept pipeline ih
          (outgoing spec id) pend evs feeds [] w₁
          (fun e he => (mem_outgoing spec).mp he) h₁ hframe hfed hlt hJ₁ hok
        refine ⟨w₂, err, hwalk, ?_, ?_⟩
        · rintro rfl
          obtain ⟨_, _, _, hgrow₂, -⟩ := hprog
          exact hgrow₂.settled id hframe.1
        · exact hprog.after hgrow fun u hu => ⟨hsettled u hu, ne_of_settled hu hs⟩

/-- A node whose parents have all settled waits for none. -/
theorem WalkInv.waiting_zero
    (h : WalkInv spec invokeNode userMsg none [] evs feeds w) {v : String} (hv : spec.Declared v)
    (hparents : ∀ u, spec.Edge u v → w.settled u = true) : w.waiting v = 0 := by
  have hnone : ¬ 0 < inCount spec (fun u => !w.settled u) v := by
    rw [inCount_pos_iff]
    rintro ⟨u, hu, hedge⟩
    simp [hparents u hedge] at hu
  rw [h.waiting v hv]
  simp only [pendingCount, countP_nil]
  omega

theorem settleRoots_spec
    (hsettle : Settles spec invokeNode userMsg ok J fuel call passes) (agents : List PipelineAgent)
    (hagents : ∀ a ∈ agents, spec.Declared a.id) (evs : List PipelineEdge)
    (feeds : String → List NodeInteraction) (w : Walk)
    (h : WalkInv spec invokeNode userMsg none [] evs feeds w) (hfuel : openCount spec w < fuel)
    (hJ : J feeds w.recorded) (hok : ∀ x ∈ rootPasses spec call passes agents w, ok x) :
    ∃ w' err, settleRoots spec call agents w = some (w', err) ∧
      Progress spec invokeNode userMsg J (fun u => w.settled u = true) [] w feeds w' err ∧
      (err = none → ∀ a ∈ agents, Root spec a.id → w'.settled a.id = true) := by
  induction agents generalizing evs feeds w with
  | nil =>
    exact ⟨w, none, rfl, ⟨evs, feeds, h, .refl, hJ⟩, by simp⟩
  | cons a as ih =>
    have hroot : Root spec a.id ↔ indegree spec a.id = 0 :=
      (indegree_eq_zero_iff spec a.id).symm
    have has : ∀ x ∈ as, spec.Declared x.id := fun x hx => hagents x (mem_cons_of_mem a hx)
    rw [settleRoots]
    rw [rootPasses] at hok
    by_cases hzero : indegree spec a.id = 0
    · rw [if_pos hzero] at hok ⊢
      rw [forall_mem_append] at hok
      have ha := hagents a mem_cons_self
      have hwait : w.waiting a.id = 0 := h.waiting_zero ha fun u hedge => absurd hedge (hroot.mpr hzero u)
      obtain ⟨w₁, err, hcall, hdone, hprog⟩ := hsettle a.id w [] evs feeds
        { h with ready := fun v hv hr hz _ => h.ready v hv hr hz (by simp) } ha hwait hfuel hJ hok.1
      rw [hcall] at hok ⊢
      cases err with
      | some err => exact ⟨w₁, some err, rfl, hprog, by simp⟩
      | none =>
        obtain ⟨evs₁, feeds₁, h₁, hgrow₁, hJ₁⟩ := hprog
        obtain ⟨w₂, err, hrest, hprog₂, hroots⟩ := ih has evs₁ feeds₁ w₁ h₁
          (Nat.lt_of_le_of_lt (openCount_mono hgrow₁.settled) hfuel) hJ₁ hok.2
        refine ⟨w₂, err, hrest, hprog₂.after hgrow₁ hgrow₁.settled, ?_⟩
        rintro rfl x hx hxroot
        rcases mem_cons.mp hx with rfl | hx
        · obtain ⟨_, _, _, hgrow₂, -⟩ := hprog₂
          exact hgrow₂.settled _ (hdone rfl)
        · exact hroots rfl x hx hxroot
    · rw [if_neg hzero] at hok ⊢
      obtain ⟨w₁, err, hrest, hprog, hroots⟩ := ih has evs feeds w h hfuel hJ hok
      refine ⟨w₁, err, hrest, hprog, fun herr x hx hxroot => ?_⟩
      rcases mem_cons.mp hx with rfl | hx
      · exact absurd (hroot.mp hxroot) hzero
      · exact hroots herr x hx hxroot

/-! ## The whole walk -/

theorem WalkInv.start :
    WalkInv spec invokeNode userMsg none [] [] (fun _ => []) (Walk.start spec) where
  declared := by simp [Walk.start]
  cover := by simp [Walk.start]
  waiting v _ := by
    have hlive : ∀ u, spec.Declared u → (fun _ => true) u = true := fun _ _ => rfl
    simpa [Walk.start, pendingCount] using indegree_eq_inCount hlive v
  closed := by simp [Walk.start]
  ready v _ hroot hzero _ := absurd ((indegree_eq_zero_iff spec v).mp hzero) hroot
  inputs := by simp [Walk.start]
  feedsNodup := by simp
  fed := by simp [Walk.start]
  once := by simp [Walk.start]
  recorded := by simp [Walk.start]
  ran := by simp [Walk.start]
  output := by simp [Walk.start]
  rootInput := by simp [Walk.start]
  joinInput := by simp [Walk.start]
  ordered := by simp [Walk.start]

theorem WalkInv.all_settled (h : WalkInv spec invokeNode userMsg none [] evs feeds w)
    (hac : Acyclic spec.Edge) (hroots : ∀ a ∈ spec.agents, Root spec a.id → w.settled a.id = true) :
    ∀ v, spec.Declared v → w.settled v = true := by
  intro x hx
  by_contra hopen
  obtain ⟨v, hv, hsource⟩ := hac.exists_source
    (S := (spec.agents.map (·.id)).toFinset.filter fun u => ¬ w.settled u = true)
    ⟨x, by simpa using ⟨List.mem_map.mp hx, by simpa using hopen⟩⟩
  simp only [Finset.mem_filter, List.mem_toFinset] at hv hsource
  -- the source has only settled parents, so its counter ran down to zero
  have hzero : w.waiting v = 0 := h.waiting_zero hv.1 fun u hedge =>
    by_contra fun hu => hsource u ⟨(Edge.declared hedge).1, hu⟩ hedge
  by_cases hroot : Root spec v
  · obtain ⟨a, ha, rfl⟩ := List.mem_map.mp hv.1
    exact hv.2 (hroots a ha hroot)
  · exact hv.2 (h.ready v hv.1 hroot hzero (by simp))

/-- A graph run on an acyclic definition ends; it fails with a fault of the walk
or every declared node has settled.  It keeps what runs and passes keep. -/
theorem runGraph_keeps (hkept : Kept spec invokeNode userMsg ok J) (pipeline : String)
    (horder : IterationOrder spec order) (hac : Acyclic spec.Edge) (hJ : J (fun _ => []) [])
    (hok : ∀ x ∈ graphPasses pipeline spec invokeNode userMsg, ok x) :
    ∃ nodes err, runGraph pipeline spec invokeNode userMsg order = some (nodes, err) ∧
      (∃ feeds, J feeds nodes) ∧
      match err with
      | some err => Fault spec invokeNode nodes err
      | none => ∃ evs feeds w, w.recorded = nodes ∧
          WalkInv spec invokeNode userMsg none [] evs feeds w ∧
          ∀ v, spec.Declared v → w.settled v = true := by
  obtain ⟨cyclic, hpeel, hnil⟩ := cyclicNodes_spec horder
  rw [hnil.mpr hac] at hpeel
  have hstart : WalkInv spec invokeNode userMsg none [] [] (fun _ => []) (Walk.start spec) :=
    WalkInv.start
  obtain ⟨w, err, hrun, hprog, hroots⟩ := settleRoots_spec
    (settle_settles hkept pipeline (spec.agents.length + 1)) spec.agents
    (fun a ha => mem_map.mpr ⟨a, ha, rfl⟩) [] _ _ hstart
    (Nat.lt_succ_of_le countP_le_length) hJ hok
  refine ⟨w.recorded, err, by rw [runGraph, hpeel]; simp [hrun], ?_⟩
  cases err with
  | some err => exact ⟨hprog.2, hprog.1⟩
  | none =>
    obtain ⟨evs, feeds, hinv, -, hJ'⟩ := hprog
    exact ⟨⟨feeds, hJ'⟩, evs, feeds, w, rfl, hinv, hinv.all_settled hac (hroots rfl)⟩

theorem runGraph_spec (pipeline : String)
    (horder : IterationOrder spec order) (hac : Acyclic spec.Edge) :
    ∃ nodes err, runGraph pipeline spec invokeNode userMsg order = some (nodes, err) ∧
      match err with
      | some err => Fault spec invokeNode nodes err
      | none => ∃ evs feeds w, w.recorded = nodes ∧
          WalkInv spec invokeNode userMsg none [] evs feeds w ∧
          ∀ v, spec.Declared v → w.settled v = true := by
  have hkept : Kept spec invokeNode userMsg (fun _ => True) (fun _ _ => True) :=
    ⟨fun _ _ _ _ _ => trivial, fun _ _ _ _ => trivial⟩
  obtain ⟨nodes, err, hrun, -, h⟩ := runGraph_keeps hkept pipeline horder hac trivial fun _ _ => trivial
  exact ⟨nodes, err, hrun, h⟩

end MockAgents.Pipeline.Proofs
