import MockAgents.Pipeline.Proofs.Graph
/-!
# Three colours decide acyclicity

The depth-first search of `detectPipelineCycle` over an arbitrary successor
function.  Black nodes are closed under successors and lie on no closed walk;
every gray node reaches the node being visited, so meeting a gray successor
closes a walk.
-/

namespace MockAgents.Pipeline.Proofs

open Lib Lib.Digraph Relation List Option Function

def Succ (fwd : String → List String) (u v : String) : Prop := v ∈ fwd u

section Search

variable (printable : Char → Bool) {fwd : String → List String} {agents : List PipelineAgent}

/-- What holds of the colours between two visits. -/
structure Coloring (fwd : String → List String) (color : String → Color) : Prop where
  closed : ∀ a b, color a = .black → Succ fwd a b → color b = .black
  sound : ∀ a, color a = .black → ¬ TransGen (Succ fwd) a a

/-- A finished visit only turns white nodes black. -/
structure Extends (color color' : String → Color) : Prop where
  gray : ∀ v, color' v = .gray ↔ color v = .gray
  black : ∀ v, color v = .black → color' v = .black

theorem Extends.refl (color : String → Color) : Extends color color :=
  ⟨fun _ => Iff.rfl, fun _ h => h⟩

theorem Extends.trans {c₁ c₂ c₃ : String → Color} (h₁ : Extends c₁ c₂)
    (h₂ : Extends c₂ c₃) : Extends c₁ c₃ :=
  ⟨fun v => (h₂.gray v).trans (h₁.gray v), fun v hv => h₂.black v (h₁.black v hv)⟩

variable {color color' : String → Color} {n : String}

theorem Extends.white (h : Extends color color') {v : String} (hv : color' v = .white) :
    color v = .white := by
  cases hc : color v with
  | white => rfl
  | gray => simp [(h.gray v).mpr hc] at hv
  | black => simp [h.black v hc] at hv

/-- The two ways a visit started in `d` can end in `d'`: it found a closed walk
and reported it, or it extended the colouring and reported nothing. -/
structure Outcome (fwd : String → List String) (d d' : Dfs) : Prop where
  found : d'.cycleFound = true → (∃ v, TransGen (Succ fwd) v v) ∧ d'.errors ≠ []
  clean : d'.cycleFound = false →
    Coloring fwd d'.color ∧ Extends d.color d'.color ∧ d'.errors = d.errors

theorem Outcome.refl {d : Dfs} (hfound : d.cycleFound = false) (hcol : Coloring fwd d.color) :
    Outcome fwd d d :=
  ⟨fun h => by simp [hfound] at h, fun _ => ⟨hcol, Extends.refl _, rfl⟩⟩

theorem Outcome.trans {d d₁ d₂ : Dfs} (h₁ : Outcome fwd d d₁) (hfound : d₁.cycleFound = false)
    (h₂ : Outcome fwd d₁ d₂) : Outcome fwd d d₂ := by
  refine ⟨h₂.found, fun hf => ?_⟩
  obtain ⟨_, hext₁, herr₁⟩ := h₁.clean hfound
  obtain ⟨hcol₂, hext₂, herr₂⟩ := h₂.clean hf
  exact ⟨hcol₂, hext₁.trans hext₂, herr₂.trans herr₁⟩

/-- White agents: the measure of the recursion. -/
def whiteCount (agents : List PipelineAgent) (color : String → Color) : Nat :=
  agents.countP fun a => color a.id == .white

theorem whiteCount_mono (h : Extends color color') :
    whiteCount agents color' ≤ whiteCount agents color := by
  apply countP_mono_left
  intro a _ ha
  simpa using h.white (by simpa using ha)

theorem whiteCount_gray (hn : n ∈ agents.map (·.id)) (hw : color n = .white) :
    whiteCount agents (Function.update color n .gray) < whiteCount agents color := by
  apply countP_id_lt (p := fun v => color v == .white)
    (q := fun v => Function.update color n .gray v == .white) hn (by simp [hw]) (by simp)
  intro v hv
  by_cases heq : v = n
  · simp [heq] at hv
  · rwa [update_of_ne heq] at hv

/-- What a call of the recursive visit at fuel `fuel` delivers. -/
def Visits (fwd : String → List String) (agents : List PipelineAgent) (fuel : Nat)
    (visit : String → Dfs → Option Dfs) : Prop :=
  ∀ n d, d.cycleFound = false → Coloring fwd d.color → d.color n = .white →
    n ∈ agents.map (·.id) → whiteCount agents d.color ≤ fuel →
    (∀ g, d.color g = .gray → TransGen (Succ fwd) g n) →
    ∃ d', visit n d = some d' ∧ Outcome fwd d d' ∧
      (d'.cycleFound = false → d'.color n = .black)

theorem dfsEdges_stop {visit : String → Dfs → Option Dfs} (ms : List String) {d : Dfs}
    (hfound : d.cycleFound = true) : dfsEdges printable visit ms d = some d := by
  cases ms with
  | nil => rfl
  | cons m ms => rw [dfsEdges, if_pos hfound]

/-- The loop over nodes that every gray node reaches: it ends, and unless a cycle was found
all the nodes it ran through are black. -/
theorem dfsEdges_spec {fuel : Nat} {visit : String → Dfs → Option Dfs}
    (hvisit : Visits fwd agents fuel visit) (ms : List String) (d : Dfs)
    (hms : ∀ m ∈ ms, m ∈ agents.map (·.id)) (hfound : d.cycleFound = false)
    (hcol : Coloring fwd d.color) (hfuel : whiteCount agents d.color ≤ fuel)
    (hgray : ∀ m ∈ ms, ∀ g, d.color g = .gray → TransGen (Succ fwd) g m) :
    ∃ d', dfsEdges printable visit ms d = some d' ∧ Outcome fwd d d' ∧
      (d'.cycleFound = false → ∀ m ∈ ms, d'.color m = .black) := by
  induction ms generalizing d with
  | nil => exact ⟨d, rfl, .refl hfound hcol, by simp⟩
  | cons m ms ih =>
    rw [forall_mem_cons] at hms hgray
    rw [dfsEdges, if_neg (by simp [hfound])]
    cases hc : d.color m with
    | gray =>
      -- a gray node that reaches itself
      exact ⟨_, rfl, ⟨fun _ => ⟨⟨m, hgray.1 m hc⟩, by simp⟩, by simp⟩, by simp⟩
    | black =>
      obtain ⟨d', hd', hout, hblack⟩ := ih d hms.2 hfound hcol hfuel hgray.2
      refine ⟨d', hd', hout, fun hf => ?_⟩
      exact forall_mem_cons.mpr ⟨(hout.clean hf).2.1.black m hc, hblack hf⟩
    | white =>
      obtain ⟨d₁, hd₁, hout₁, hblack₁⟩ := hvisit m d hfound hcol hc hms.1 hfuel hgray.1
      rw [hd₁]
      cases hf₁ : d₁.cycleFound with
      | true => exact ⟨d₁, dfsEdges_stop printable ms hf₁, hout₁, fun hf => by simp [hf₁] at hf⟩
      | false =>
        obtain ⟨hcol₁, hext₁, _⟩ := hout₁.clean hf₁
        obtain ⟨d', hd', hout, hblack⟩ := ih d₁ hms.2 hf₁ hcol₁
          (Nat.le_trans (whiteCount_mono hext₁) hfuel)
          fun x hx g hg => hgray.2 x hx g ((hext₁.gray g).mp hg)
        refine ⟨d', hd', hout₁.trans hf₁ hout, fun hf => ?_⟩
        exact forall_mem_cons.mpr ⟨(hout.clean hf).2.1.black m (hblack₁ hf₁), hblack hf⟩

/-- Marking `n` gray keeps the colouring, marking it black after its successors
are black extends it. -/
theorem Coloring.enter (h : Coloring fwd color) (hn : color n = .white) :
    Coloring fwd (Function.update color n .gray) := by
  have hblack : ∀ v, Function.update color n .gray v = .black → color v = .black := by
    intro v hv
    by_cases heq : v = n
    · simp [heq] at hv
    · rwa [update_of_ne heq] at hv
  refine ⟨fun a b ha hab => ?_, fun a ha => h.sound a (hblack a ha)⟩
  have hb := h.closed a b (hblack a ha) hab
  have hne : b ≠ n := fun heq => by simp [← heq, hb] at hn
  rwa [update_of_ne hne]

theorem Coloring.leave (h : Coloring fwd color) (hn : color n = .gray)
    (hsucc : ∀ m ∈ fwd n, color m = .black) : Coloring fwd (Function.update color n .black) := by
  have hkeep : ∀ v, color v = .black → Function.update color n .black v = .black := by
    intro v hv
    by_cases heq : v = n
    · simp [heq]
    · rwa [update_of_ne heq]
  constructor
  · intro a b ha hab
    by_cases heq : a = n
    · exact hkeep b (hsucc b (heq ▸ hab))
    · rw [update_of_ne heq] at ha
      exact hkeep b (h.closed a b ha hab)
  · intro a ha
    by_cases heq : a = n
    · subst heq
      exact not_cycle_of_succs (S := fun v => color v = .black) h.closed
        (by simp [hn]) hsucc
    · rw [update_of_ne heq] at ha
      exact h.sound a ha

theorem Extends.visit (hn : color n = .white) (h : Extends (Function.update color n .gray) color') :
    Extends color (Function.update color' n .black) := by
  constructor
  · intro v
    by_cases heq : v = n
    · simp [heq, hn]
    · rw [update_of_ne heq, h.gray v, update_of_ne heq]
  · intro v hv
    have hne : v ≠ n := fun heq => by simp [heq, hn] at hv
    rw [update_of_ne hne]
    exact h.black v (by rwa [update_of_ne hne])

theorem dfs_visits (htarget : ∀ u, ∀ m ∈ fwd u, m ∈ agents.map (·.id)) (fuel : Nat) :
    Visits fwd agents fuel (dfs printable fwd (fuel + 1)) := by
  induction fuel with
  | zero =>
    intro n d _ _ hwhite hn hfuel _
    have hlt := whiteCount_gray hn hwhite
    omega
  | succ fuel ih =>
    intro n d hfound hcol hwhite hn hfuel hgray
    have hlt := whiteCount_gray hn hwhite
    rw [dfs, if_neg (by simp [hfound])]
    obtain ⟨d', hd', hout, hblack⟩ := dfsEdges_spec printable ih
      (fwd n) { d with color := Function.update d.color n .gray }
      (htarget n) hfound (hcol.enter hwhite) (by
        show whiteCount agents (Function.update d.color n .gray) ≤ fuel
        omega) (by
        intro m hm g hg
        by_cases heq : g = n
        · exact heq ▸ .single hm
        · exact (hgray g (by simpa [update_of_ne heq] using hg)).tail hm)
    rw [hd', map_some]
    cases hf : d'.cycleFound with
    | true =>
      refine ⟨d', rfl, ⟨fun _ => hout.found hf, fun h => by simp [hf] at h⟩,
        fun h => by simp [hf] at h⟩
    | false =>
      obtain ⟨hcol', hext, herr⟩ := hout.clean hf
      have hn' : d'.color n = .gray := (hext.gray n).mpr (by simp)
      refine ⟨_, rfl, ⟨fun h => by simp at h, fun _ => ?_⟩, by simp⟩
      exact ⟨hcol'.leave hn' (hblack hf), hext.visit hwhite, herr⟩

/-- The loop over the roots meets no gray node: it is the loop over the named agents. -/
theorem dfsRoots_eq {fuel : Nat} {visit : String → Dfs → Option Dfs}
    (hvisit : Visits fwd agents fuel visit) (as : List PipelineAgent) (d : Dfs)
    (has : ∀ a ∈ as, a ∈ agents) (hfound : d.cycleFound = false)
    (hcol : Coloring fwd d.color) (hfuel : whiteCount agents d.color ≤ fuel)
    (hgray : ∀ g, d.color g ≠ .gray) :
    dfsRoots visit as d = dfsEdges printable visit ((as.map (·.id)).filter (· ≠ "")) d := by
  induction as generalizing d with
  | nil => rfl
  | cons a as ih =>
    rw [forall_mem_cons] at has
    have hgo : ¬ d.cycleFound = true := by simp [hfound]
    rw [dfsRoots, if_neg hgo, map_cons]
    by_cases hempty : a.id = ""
    · rw [if_pos hempty, filter_cons_of_neg (by simp [hempty])]
      exact ih d has.2 hfound hcol hfuel hgray
    rw [if_neg hempty, filter_cons_of_pos (by simp [hempty]), dfsEdges, if_neg hgo]
    cases hc : d.color a.id with
    | gray => exact absurd hc (hgray a.id)
    | black =>
      rw [if_neg (by simp)]
      exact ih d has.2 hfound hcol hfuel hgray
    | white =>
      obtain ⟨d₁, hd₁, hout₁, _⟩ := hvisit a.id d hfound hcol hc
        (mem_map_of_mem has.1) hfuel fun g hg => absurd hg (hgray g)
      rw [if_pos rfl, hd₁, bind_some, bind_some]
      cases hf₁ : d₁.cycleFound with
      | true =>
        rw [dfsEdges_stop printable _ hf₁]
        cases as with
        | nil => rfl
        | cons x xs => rw [dfsRoots, if_pos hf₁]
      | false =>
        obtain ⟨hcol₁, hext₁, _⟩ := hout₁.clean hf₁
        exact ih d₁ has.2 hf₁ hcol₁ (Nat.le_trans (whiteCount_mono hext₁) hfuel)
          fun g hg => hgray g ((hext₁.gray g).mp hg)

end Search

/-! ## The validator's search -/

variable (printable : Char → Bool) (spec : PipelineSpec)

theorem forward_target {u m : String} (h : m ∈ forward spec u) : spec.Declared m ∧ m ≠ "" := by
  obtain ⟨e, he, rfl⟩ := mem_map.mp (forward_eq spec u ▸ h)
  simp only [mem_filter, Bool.and_eq_true] at he
  have hkey := he.2.1.1.2
  rw [isForwardKey, Bool.and_eq_true, PipelineSpec.any_id_iff] at hkey
  exact ⟨hkey.2, by simpa using hkey.1⟩

/-- The search ends on every document, finds a cycle exactly when the adjacency
it was given has one, and reports an error exactly then. -/
theorem detectPipelineCycle_spec :
    ∃ found errors, detectPipelineCycle printable spec = some (found, errors) ∧
      (found = false ↔ Acyclic (Succ (forward spec))) ∧ (found = true ↔ errors ≠ []) := by
  have hwhite : whiteCount spec.agents (fun _ => Color.white) ≤ spec.agents.length :=
    countP_le_length
  have hvisit : Visits (forward spec) spec.agents spec.agents.length
      (dfs printable (forward spec) (spec.agents.length + 1)) :=
    dfs_visits printable (fun u m hm => (forward_target spec hm).1) _
  have hcol : Coloring (forward spec) fun _ => Color.white :=
    ⟨fun a b h => by simp at h, fun a h => by simp at h⟩
  obtain ⟨d, hd, hout, hblack⟩ := dfsEdges_spec printable hvisit
    ((spec.agents.map (·.id)).filter (· ≠ "")) ⟨fun _ => .white, false, []⟩
    (fun m hm => mem_of_mem_filter hm) rfl hcol hwhite (by simp)
  rw [← dfsRoots_eq printable hvisit spec.agents _ (fun _ h => h) rfl hcol hwhite (by simp)] at hd
  refine ⟨d.cycleFound, d.errors, by rw [detectPipelineCycle, hd, map_some], ?_, ?_⟩
  · cases hf : d.cycleFound with
    | true =>
      obtain ⟨⟨v, hv⟩, _⟩ := hout.found hf
      simpa using fun hac : Acyclic (Succ (forward spec)) => hac v hv
    | false =>
      refine iff_of_true rfl fun v hv => ?_
      obtain ⟨u, _, huv⟩ := TransGen.tail'_iff.mp hv
      obtain ⟨hdecl, hne⟩ := forward_target spec huv
      obtain ⟨a, ha, rfl⟩ := mem_map.mp hdecl
      exact (hout.clean hf).1.sound a.id (hblack hf a.id (by simpa using ⟨⟨a, ha, rfl⟩, hne⟩)) hv
  · cases hf : d.cycleFound with
    | true => simpa using (hout.found hf).2
    | false => simpa using (hout.clean hf).2.2

/-- With non-empty ids, as for every accepted document, the search decides
acyclicity of the counted edges. -/
theorem detectPipelineCycle_acyclic (hid : ∀ a ∈ spec.agents, a.id ≠ "") :
    ∃ found errors, detectPipelineCycle printable spec = some (found, errors) ∧
      (found = false ↔ Acyclic spec.Edge) ∧ (found = true ↔ errors ≠ []) := by
  have hrel : Succ (forward spec) = spec.Edge := by
    funext u v
    exact propext (mem_forward_iff spec hid u v)
  rw [← hrel]
  exact detectPipelineCycle_spec printable spec

/-! ## Reachability -/

/-- Edges whose source was not expanded yet. -/
def unexpanded (spec : PipelineSpec) (reachable : List String) : Nat :=
  spec.edges.countP fun e => isForwardKey spec e.fromID && isForwardKey spec e.toID &&
    e.fromID != e.toID && !reachable.contains e.fromID

theorem unexpanded_cons {n : String} {reachable : List String} (hn : n ∉ reachable) :
    unexpanded spec reachable = unexpanded spec (n :: reachable) + (forward spec n).length := by
  rw [unexpanded, unexpanded, forward_eq, length_map, ← countP_eq_length_filter]
  induction spec.edges with
  | nil => rfl
  | cons e es ih =>
    simp only [countP_cons, ih]
    by_cases hfrom : e.fromID = n
    · simp [hfrom, hn]
      omega
    · simp [hfrom]
      omega

theorem bfs_isSome (fuel : Nat) (queue reachable : List String)
    (h : queue.length + unexpanded spec reachable ≤ fuel) :
    (bfs (forward spec) fuel queue reachable).isSome = true := by
  induction fuel generalizing queue reachable with
  | zero =>
    cases queue with
    | nil => rfl
    | cons n queue => simp at h
  | succ fuel ih =>
    cases queue with
    | nil => rfl
    | cons n queue =>
      rw [length_cons] at h
      rw [bfs]
      split
      · exact ih queue reachable (by omega)
      · next hn =>
        apply ih
        have hcons := unexpanded_cons spec hn
        rw [length_append]
        omega

/-- Validation ends on every document. -/
theorem validatePipeline_isSome (order : List String) (unknownFields : List ValidationError)
    (doc : PipelineDefinition) :
    (validatePipeline printable order unknownFields doc).isSome = true := by
  rw [validatePipeline, isSome_map, validatePipelineGraph]
  obtain ⟨found, errors, hdetect, _⟩ := detectPipelineCycle_spec printable doc.spec
  rw [hdetect]
  split
  · rfl
  · split
    · rfl
    · cases found with
      | true => rfl
      | false =>
        simp only
        split
        · rfl
        · rw [isSome_map]
          apply bfs_isSome
          exact Nat.add_le_add_left countP_le_length _

end MockAgents.Pipeline.Proofs
