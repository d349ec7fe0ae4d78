import MockAgents.Realtime.Proofs.Quiet
import MockAgents.Lib.Turns
/-!
# The turn cycle of the detector

Over any run the detector speaks exactly while it holds an announced item id, a
detected stop is committed at once under the id of the latest start, and no id is
committed twice.
-/

namespace MockAgents.Realtime

open Lib.Turns List Option Event

variable {F ι κ : Type}

def Event.turn : Event F ι → Mark String
  | .speechStarted _ id => .started id
  | .speechStopped _ id => .stopped id
  | .bufferCommitted _ id => .committed id
  | _ => .silent

theorem Event.turn_map (f : ι → κ) (ev : Event F ι) : (ev.map f).turn = ev.turn := by
  cases ev <;> rfl

theorem Event.turn_of_plain {ev : Event F ι} (h : ev.isPlain = true) : ev.turn = .silent := by
  cases ev <;> first | rfl | exact absurd h (by simp [isPlain])

theorem turns_of_plain {out : List (Event F ι)} (h : ∀ e ∈ out, e.isPlain = true) :
    ∀ m ∈ out.map turn, m = .silent := by
  intro m hm
  obtain ⟨e, he, rfl⟩ := mem_map.mp hm
  exact turn_of_plain (h e he)

namespace Session

/-! ## The invariant -/

/-- The detector speaks exactly while it holds an announced id. -/
def Cyclic (s : Session F) : Prop :=
  ∀ v, s.vad = some v → (v.speechActive = true ↔ v.pendingItemID ≠ "")

/-- The state of the detector in a session whose turns the floor has followed. -/
structure Follows (s : Session F) (f : Floor String) : Prop where
  due : f.due = none
  cyclic : s.Cyclic
  pending : ∀ id, s.pendingItem = some id →
    f.latest = some id ∧ id ∉ f.committed ∧ s.Minted id
  minted : ∀ id ∈ f.committed, s.Minted id
  plain : s.PlainQueue

/-- The floor accepts what the step emits and follows on. -/
def Turns (s : Session F) (out : List (Event F ItemRef)) (s' : Session F) : Prop :=
  ∀ f, s.Follows f → ∃ f', f.run (out.map Event.turn) = some f' ∧ s'.Follows f'

theorem Turns.trans {s₁ s₂ s₃ : Session F} {o₁ o₂ : Events F} (h₁ : Turns s₁ o₁ s₂)
    (h₂ : Turns s₂ o₂ s₃) : Turns s₁ (o₁ ++ o₂) s₃ := by
  intro f hf
  obtain ⟨f₁, hr₁, hf₁⟩ := h₁ f hf
  obtain ⟨f₂, hr₂, hf₂⟩ := h₂ f₁ hf₁
  exact ⟨f₂, by rw [map_append, Floor.run_append, hr₁, bind_some, hr₂], hf₂⟩

variable {out : Events F} {s s' s₁ s₂ : Session F} {id : String} {f : Floor String}
variable {v : VadState F} (env : Env F) {audio : Lib.Bytes}

theorem Turns.before {s₁ s₂ s₃ : Session F} (h₁ : Turns s₁ [] s₂) (h₂ : Turns s₂ out s₃) :
    Turns s₁ out s₃ := h₁.trans h₂

theorem pendingItem_congr (h : s'.vad = s.vad) : s'.pendingItem = s.pendingItem := by
  rw [pendingItem, pendingItem, h]

theorem pendingItem_eq_some (h : s.pendingItem = some id) :
    ∃ v, s.vad = some v ∧ v.pendingItemID = id ∧ id ≠ "" := by
  unfold pendingItem at h
  split at h
  · cases h
  next v hv =>
    split at h
    · cases h
    next hne =>
      exact ⟨v, hv, some.inj h, some.inj h ▸ hne⟩

theorem Follows.carry (hf : s.Follows f) (hid : s'.id = s.id) (hc : s.counter ≤ s'.counter)
    (hcyc : s'.Cyclic) (hp : s'.pendingItem = s.pendingItem ∨ s'.pendingItem = none)
    (hplain : s'.PlainQueue) : s'.Follows f := by
  refine ⟨hf.due, hcyc, ?_, fun id h => (hf.minted id h).mono hid hc, hplain⟩
  intro id hpend
  rcases hp with h | h
  · obtain ⟨hl, hn, hm⟩ := hf.pending id (h ▸ hpend)
    exact ⟨hl, hn, hm.mono hid hc⟩
  · rw [h] at hpend
    cases hpend

/-- A minted id other than the announced one, if there is one, may be committed. -/
theorem Follows.commit (hf : s.Follows f) (hm : s.Minted id)
    (hne : ∀ i, s.pendingItem = some i → i ≠ id) :
    s.Follows { f with committed := id :: f.committed } := by
  refine ⟨hf.due, hf.cyclic, fun i hi => ?_, forall_mem_cons.mpr ⟨hm, hf.minted⟩, hf.plain⟩
  obtain ⟨hl, hn, hmint⟩ := hf.pending i hi
  exact ⟨hl, fun hmem => (mem_cons.mp hmem).elim (hne i hi) hn, hmint⟩

theorem Quiet.turns (h : Quiet s out s') : Turns s out s' := by
  intro f hf
  obtain ⟨hq, hout⟩ := h.plain hf.plain
  refine ⟨f, Floor.run_silent hf.due _ (turns_of_plain hout), ?_⟩
  refine hf.carry h.settled.id h.counter ?_ (.inl (pendingItem_congr h.settled.vad)) hq
  intro v hv
  exact hf.cyclic v (h.settled.vad ▸ hv)

theorem Turns.refl (s : Session F) : Turns s [] s := (Quiet.refl s).turns

theorem Turns.stamped (h : Turns s out s') (hf : s.Follows f) :
    ∃ f', f.run ((s'.stamp out).2.map fun e => e.event.turn) = some f' ∧ (s'.stamp out).1.Follows f' := by
  obtain ⟨f', hr, hf'⟩ := h f hf
  obtain ⟨f'', hr', hf''⟩ := (extends_stamp s' out).quiet.turns f' hf'
  obtain rfl := some.inj hr'
  exact ⟨f', by rw [map_stamp _ _ turn fun f ev => ev.turn_map f, hr], hf''⟩

theorem Turns.of_vad (hid : s'.id = s.id) (hc : s.counter ≤ s'.counter) (hv : s'.vad = s.vad)
    (hq : s'.inflight = s.inflight) : Turns s [] s' := by
  intro f hf
  refine ⟨f, rfl, hf.carry hid hc ?_ (.inl (pendingItem_congr hv)) ?_⟩
  · exact fun v h => hf.cyclic v (hv ▸ h)
  · rw [PlainQueue, queue, hq]
    exact hf.plain

theorem Still.cyclic (h : s.Still s') (hs : s.Cyclic) : s'.Cyclic := by
  intro v' hv'
  have hturn := h.turn
  rw [hv'] at hturn
  obtain ⟨v, hv, hsame⟩ := map_eq_some_iff.mp hturn.symm
  rw [Prod.mk.injEq] at hsame
  rw [← hsame.1, ← hsame.2]
  exact hs v hv

theorem Still.turns (h : s.Still s') (hout : ∀ e ∈ out, e.isPlain = true) : Turns s out s' := by
  intro f hf
  refine ⟨f, Floor.run_silent hf.due _ (turns_of_plain hout), ?_⟩
  refine hf.carry h.unmoved.id h.unmoved.counter (h.cyclic hf.cyclic) h.unmoved.pending ?_
  rw [PlainQueue, queue, h.inflight]
  exact hf.plain

theorem autoRespond_quiet (s : Session F) (cfg : VadConfig F) :
    Gives (Quiet s) (s.autoRespond env cfg) := by
  unfold autoRespond
  split
  · exact .refl s
  · split
    · exact createResponse_quiet env s {}
    · exact .of_eq ⟨rfl, rfl, rfl, rfl⟩ le_rfl rfl rfl rfl

theorem Turns.starting {ms : Int} (hid : s'.id = s.id) (hc : s.counter ≤ s'.counter)
    (hv : s'.vad = some v) (hon : v.speechActive = true) (hp : v.pendingItemID = id)
    (hminted : s'.Minted id) (hnew : ∀ i, s.Minted i → id ≠ i) (hq : s'.inflight = s.inflight) :
    Turns s [.speechStarted ms id] s' := by
  intro f hf
  have hne : id ≠ "" := hminted.ne_empty
  refine ⟨{ f with latest := some id }, ?_, hf.due, ?_, ?_, ?_, ?_⟩
  · simp [turn, Floor.run, Floor.step, hf.due]
  · intro w hw
    obtain rfl : v = w := by rwa [hv, some.injEq] at hw
    simp [hon, hp, hne]
  · intro i hi
    obtain ⟨w, hw, rfl, _⟩ := pendingItem_eq_some hi
    obtain rfl : v = w := by rwa [hv, some.injEq] at hw
    rw [hp]
    exact ⟨rfl, fun hmem => hnew id (hf.minted id hmem) rfl, hminted⟩
  · exact fun i hi => (hf.minted i hi).mono hid hc
  · rw [PlainQueue, queue, hq]
    exact hf.plain

/-! ## Committing -/

theorem newConversationItem_quiet (s : Session F) : Quiet s [] s.newConversationItem.1 :=
  (extends_nextID s .item).quiet.before (reindexed_joinTail ..).quiet

theorem storedTurn_quiet (s : Session F) (id : String) (transcript : Field) (audio : Lib.Bytes)
    (entries : List Message) :
    Quiet s [] { (s.storeTurn id transcript audio).1 with
      history := (s.storeTurn id transcript audio).1.history ++ entries } := by
  refine (storeTurn_frame s id transcript audio).quiet.before ?_
  exact .of_eq ⟨rfl, rfl, rfl, rfl⟩ le_rfl rfl rfl rfl

theorem newConversationItem_new (s : Session F) :
    s.newConversationItem.1.Minted s.newConversationItem.2.2 ∧
      ∀ i, s.Minted i → s.newConversationItem.2.2 ≠ i :=
  ⟨s.nextID_minted .item, fun _ hi => s.nextID_ne_minted .item hi⟩

variable [GoFloat F]

/-- The state right after a commit of the item `id`. -/
structure Commits (s : Session F) (id : String) (s' : Session F) : Prop where
  session : s'.id = s.id
  counter : s.counter ≤ s'.counter
  cfg : s'.cfg = s.cfg
  fired : s'.idleFired = false
  plain : s.PlainQueue → s'.PlainQueue
  adopted : (s.pendingItem = some id ∧ s'.vad = s.vadReset.vad) ∨
    (s.pendingItem = none ∧ s'.vad = s.vad ∧ s'.Minted id ∧ ∀ i, s.Minted i → id ≠ i)

theorem commitItem_commits (s : Session F) :
    ∃ prev id rest, (s.commitItem env).2 = .bufferCommitted prev id :: rest ∧
      (∀ e ∈ rest, e.isPlain = true ∧ ∀ body, e ≠ .error body) ∧ Commits s id (s.commitItem env).1 := by
  have h := s.commitItem_cases env
  generalize s.commitItem env = r at h
  cases h with
  | mk seconds hn hid =>
    refine ⟨_, _, _, rfl, fun e he => ?_, rfl, hn, rfl, rfl, fun hq => hq, hid.imp_right ?_⟩
    · rcases mem_append.mp he with he | he
      · simp only [conversationItemEvents, mem_cons, not_mem_nil, or_false] at he
        rcases he with rfl | rfl <;> exact ⟨rfl, by simp⟩
      · rcases mem_transcriptionEvents env he with ⟨_, _, rfl⟩ | ⟨_, _, _, rfl⟩ <;> exact ⟨rfl, by simp⟩
    · rintro ⟨hpend, hvad, rfl, rfl⟩
      exact ⟨hpend, hvad, s.nextID_minted .item, fun _ hi => s.nextID_ne_minted .item hi⟩

theorem vadReset_cyclic (h : s'.vad = s.vadReset.vad) : s'.Cyclic ∧ s'.pendingItem = none := by
  rw [vadReset] at h
  refine ⟨?_, ?_⟩
  · intro v hv
    rw [h] at hv
    obtain ⟨v₀, _, rfl⟩ := map_eq_some_iff.mp hv
    simp
  · rw [pendingItem, h]
    cases s.vad <;> rfl

/-- The floor accepts a commit: of the announced item, or of a new one. -/
theorem Commits.follows (h : Commits s id s') (hf : s.Follows f) :
    id ∉ f.committed ∧ s'.Follows { f with committed := id :: f.committed } := by
  rcases h.adopted with ⟨hp, hv⟩ | ⟨hp, hv, hm, hnew⟩
  · obtain ⟨hcyc, hnone⟩ := vadReset_cyclic hv
    obtain ⟨_, hnot, hmint⟩ := hf.pending id hp
    have hf' := hf.carry h.session h.counter hcyc (.inr hnone) (h.plain hf.plain)
    exact ⟨hnot, hf'.commit (hmint.mono h.session h.counter) (by simp [hnone])⟩
  · have hcyc : s'.Cyclic := fun v hv' => hf.cyclic v (hv ▸ hv')
    have hnone : s'.pendingItem = none := (pendingItem_congr hv).trans hp
    have hf' := hf.carry h.session h.counter hcyc (.inr hnone) (h.plain hf.plain)
    exact ⟨fun hi => hnew id (hf.minted id hi) rfl, hf'.commit hm (by simp [hnone])⟩

theorem commitItem_turns (s : Session F) : Gives (Turns s) (s.commitItem env) := by
  intro f hf
  obtain ⟨prev, id, rest, hout, hrest, hc⟩ := commitItem_commits env s
  obtain ⟨hnot, hf'⟩ := hc.follows hf
  refine ⟨_, ?_, hf'⟩
  rw [hout, map_cons, Floor.run]
  simp only [turn, Floor.step, hf.due, true_or, true_and, if_pos hnot, bind_some]
  exact Floor.run_silent rfl _ (turns_of_plain fun e he => (hrest e he).1)

/-! ## Detection -/

/-- The detector's own commit is not checked against the minimal duration. -/
theorem commitBuffer_buffered (hbuf : s.audioBuffer = true) :
    commitBuffer env { s with vadCommitting := true } = commitItem env { s with vadCommitting := true } := by
  simp [commitBuffer, hbuf]

theorem commitBuffer_stop (hbuf : s.audioBuffer = true) (hvad : s.vad = some v)
    (hcyc : s.Cyclic) (hon : v.speechActive = true) :
    let commit := commitBuffer env { s with vadCommitting := true }
    (∃ prev rest, commit.2 = .bufferCommitted prev v.pendingItemID :: rest ∧
      ∀ e ∈ rest, e.isPlain = true ∧ ∀ body, e ≠ .error body) ∧
      Commits s v.pendingItemID commit.1 ∧ commit.1.vad = s.vadReset.vad := by
  dsimp only
  set s₁ : Session F := { s with vadCommitting := true } with hs₁
  have heq : commitBuffer env s₁ = s₁.commitItem env := commitBuffer_buffered env hbuf
  have hpend : s.pendingItem = some v.pendingItemID := by
    rw [pendingItem, hvad]
    exact if_neg ((hcyc v hvad).mp hon)
  obtain ⟨prev, id, rest, hout, hrest, hc⟩ := commitItem_commits env s₁
  have hc' : Commits s id (s₁.commitItem env).1 :=
    ⟨hc.session, hc.counter, hc.cfg, hc.fired, hc.plain, hc.adopted⟩
  rw [heq]
  rcases hc'.adopted with ⟨hp, hv⟩ | ⟨hp, _⟩
  · obtain rfl : v.pendingItemID = id := by rwa [hpend, some.injEq] at hp
    exact ⟨⟨prev, rest, hout, hrest⟩, hc', hv⟩
  · rw [hpend] at hp
    cases hp

theorem vadEndOfTurn_turns (hbuf : s.audioBuffer = true) (hvad : s.vad = some v)
    (hon : v.speechActive = true) : Gives (Turns s) (s.vadEndOfTurn env v) := by
  intro f hf
  obtain ⟨⟨prev, rest, hout, hrest⟩, hc, hv⟩ := commitBuffer_stop env hbuf hvad hf.cyclic hon
  have hpend : s.pendingItem = some v.pendingItemID := by
    rw [pendingItem, hvad]
    exact if_neg ((hf.cyclic v hvad).mp hon)
  have hlatest := (hf.pending _ hpend).1
  obtain ⟨hnot, hf'⟩ := hc.follows hf
  unfold vadEndOfTurn
  dsimp only
  set s₂ := (commitBuffer env { s with vadCommitting := true }).1 with hs₂
  have hf₂ : Follows { s₂ with vadCommitting := false }
      { f with committed := v.pendingItemID :: f.committed } :=
    ⟨hf'.due, hf'.cyclic, hf'.pending, hf'.minted, hf'.plain⟩
  have hoff : (s₂.vad.map (·.speechActive)).getD false = false := by
    rw [hv, vadReset]
    cases s.vad <;> rfl
  rw [if_neg (by rw [hoff]; simp)]
  obtain ⟨f₃, hr₃, hf₃⟩ := (autoRespond_quiet env { s₂ with vadCommitting := false } v.cfg).turns _ hf₂
  refine ⟨f₃, ?_, hf₃⟩
  have hcommit : f.run ((speechStopped (GoFloat.toInt v.totalMs) v.pendingItemID ::
      (commitBuffer env { s with vadCommitting := true }).2).map turn) =
        some { f with committed := v.pendingItemID :: f.committed } := by
    rw [hout]
    simp only [map_cons, turn, Floor.run, Floor.step, hf.due, hlatest, and_self, if_true,
      bind_some, or_true, hnot, not_false_eq_true]
    exact Floor.run_silent rfl _ (turns_of_plain fun e he => (hrest e he).1)
  rw [map_append, Floor.run_append, hcommit, bind_some, hr₃]

theorem vadStart_turns (s : Session F) (v : VadState F) (startMs ms : F) :
    Gives (Turns s) (s.vadStart v startMs ms) := by
  have hstart : ∀ audioMs w, Turns s [.speechStarted audioMs (s.nextID .item).2]
      (s.turnStarted v startMs w) := by
    intro audioMs w
    refine Turns.starting rfl (s.nextID_lt .item).le rfl rfl rfl (s.nextID_minted .item) ?_ rfl
    exact fun i hi => s.nextID_ne_minted .item hi
  have h := s.vadStart_cases v startMs ms
  generalize s.vadStart v startMs ms = r at h
  cases h with
  | beside => exact hstart _ _
  | cancels hinf => exact (hstart _ _).trans (cancelInflight_quiet hinf .turnDetected).turns

theorem clearBuffer_turns (s : Session F) : Turns s s.clearBuffer.2 s.clearBuffer.1 := by
  intro f hf
  obtain ⟨hcyc, hnone⟩ := vadReset_cyclic (rfl : s.clearBuffer.1.vad = s.vadReset.vad)
  refine ⟨f, ?_, hf.carry rfl le_rfl hcyc (.inr hnone) hf.plain⟩
  simp [clearBuffer, turn, Floor.run, Floor.step, hf.due]

theorem idleTimeout_turns (s : Session F) : Gives (Turns s) (s.idleTimeout env) := by
  unfold idleTimeout
  split
  · exact .refl s
  · split
    · exact .refl s
    next v _ _ =>
      refine Turns.trans ?_ (createResponse_quiet env _ {}).turns
      set s₁ : Session F := { s with idleFired := true } with hs₁
      have hq := newConversationItem_quiet s₁
      obtain ⟨hm, hnew⟩ := newConversationItem_new s₁
      intro f hf
      -- the silent turn is committed under an id of its own; a pending one stays
      have hf₁ : s₁.newConversationItem.1.Follows
          { f with committed := s₁.newConversationItem.2.2 :: f.committed } := by
        have hcyc : s₁.newConversationItem.1.Cyclic := fun v hv => hf.cyclic v (hq.settled.vad ▸ hv)
        have hf' := hf.carry hq.settled.id hq.counter hcyc (.inl (pendingItem_congr hq.settled.vad))
          (hq.plain hf.plain).1
        refine hf'.commit hm fun i hi heq => ?_
        exact hnew i (hf.pending i (pendingItem_congr hq.settled.vad ▸ hi)).2.2 heq.symm
      obtain ⟨f₂, hr₂, hf₂⟩ := (storedTurn_quiet s₁.newConversationItem.1 _ _ _ _).turns _ hf₁
      refine ⟨f₂, ?_, hf₂⟩
      have hnot : s₁.newConversationItem.2.2 ∉ f.committed := fun hi => hnew _ (hf.minted _ hi) rfl
      obtain rfl := some.inj hr₂
      simp only [conversationItemEvents, cons_append, nil_append, map_cons,
        map_nil, turn, Floor.run, Floor.step, hf.due, if_true, bind_some, true_or,
        true_and, hnot, not_false_eq_true]

theorem fireIdle_turns (s : Session F) (now : Int) : Gives (Turns s) (s.fireIdle env now) := by
  unfold fireIdle
  split
  · refine Turns.before ?_ (idleTimeout_turns env _)
    exact Turns.of_vad rfl le_rfl rfl rfl
  · exact .refl s

/-! ## The other handlers -/

theorem refreshVAD_turns (s : Session F) : Turns s [] (s.refreshVAD env) := by
  intro f hf
  have hk := refreshVAD_keeps env s
  have hinf : (s.refreshVAD env).inflight = s.inflight := by
    obtain ⟨t, b, heq, -⟩ := refreshVAD_eq env s
    rw [heq]
  refine ⟨f, rfl, hf.carry hk.id hk.counter ?_ ?_ ?_⟩
  · intro v' hv'
    rcases refreshVAD_vad env hv' with ⟨v, hv, ha, hp⟩ | ⟨ha, hp⟩
    · rw [ha, hp]
      exact hf.cyclic v hv
    · simp [ha, hp]
  · exact s.refreshVAD_pending env
  · rw [PlainQueue, queue, hinf]
    exact hf.plain

theorem updateSession_turns (s : Session F) (raw : Raw) :
    Gives (Turns s) (s.updateSession env raw) := by
  have hsaid : ∀ (t : Session F) obj, Turns t [.sessionUpdated obj] t := fun t obj =>
    (Quiet.ofPlain t (by simp [isPlain])).turns
  have hcfg : ∀ cfg, Turns s [] { s with cfg := cfg } := fun _ => Turns.of_vad rfl le_rfl rfl rfl
  rcases updateSession_eq env s raw with ⟨e, h⟩ | ⟨_, cfg, obj, h⟩ | ⟨_, cfg, obj, h⟩ <;> rw [h]
  · exact (Quiet.error s _).turns
  · exact (hcfg cfg).trans (hsaid _ _)
  · exact ((hcfg cfg).before (refreshVAD_turns env _)).trans (hsaid _ _)

theorem handling_turns : Handling env (F := F) Turns Turns where
  trans := Turns.trans
  weaken h := h
  aside ha hout := ha.turns fun e he => isPlain_of_isReply (hout e he)
  before ha h := (ha.turns (by simp)).before h
  start v' startMs ms _ _ := ((Still.disarm _).turns (by simp)).before (vadStart_turns _ v' startMs ms)
  stop := vadEndOfTurn_turns env
  commit := commitItem_turns env
  clear := clearBuffer_turns
  truncate s id := (truncateInflightItem_quiet s id).turns

theorem dispatch_turns (s : Session F) (ce : ClientEvent) :
    Gives (Turns s) (s.dispatch env ce) := by
  have P := handling_turns env (F := F)
  refine P.dispatch ?_ ?_ ?_ ?_ ?_
  · exact fun _ => updateSession_turns env s _
  · exact fun _ => P.createItem fun s₁ it id after _ _ _ _ => (addItem_quiet env s₁ it id after).turns
  · exact fun _ => P.requestResponse (createResponse_quiet env _ ce).turns
  · exact (deleteItem_quiet env s _).turns
  · exact fun _ => (cancelResponse_quiet env s ce).turns

/-! ## Calls and runs -/

theorem call_turns (hf : s.Follows f) (c : Call) :
    ∃ f', f.run ((s.call env c).2.map fun e => e.event.turn) = some f' ∧
      (s.call env c).1.Follows f' := by
  have hevent : ∀ id, Turns s [] { s with lastClientEventID := id } := fun _ =>
    Turns.of_vad rfl le_rfl rfl rfl
  cases c with
  | greeting => exact Turns.stamped (Quiet.ofPlain s (by simp [isPlain])).turns hf
  | handle ce => exact Turns.stamped ((hevent _).before (dispatch_turns env _ ce)) hf
  | tick now =>
    have hdrain : Turns { s with lastClientEventID := "" } _ _ :=
      (drainQueue_quiet env _ now).turns
    exact Turns.stamped ((hevent _).before (hdrain.trans (fireIdle_turns env _ now))) hf

theorem run_turns (calls : List Call) (hf : s.Follows f) :
    ∃ f', f.run ((s.trace env calls).map fun e => e.event.turn) = some f' ∧
      (s.run env calls).Follows f' := by
  induction calls generalizing s f with
  | nil => exact ⟨f, rfl, hf⟩
  | cons c calls ih =>
    obtain ⟨f₁, hr₁, hf₁⟩ := call_turns env hf c
    obtain ⟨f₂, hr₂, hf₂⟩ := ih hf₁
    refine ⟨f₂, ?_, hf₂⟩
    rw [trace, map_append, Floor.run_append, hr₁, bind_some, hr₂]

/-! ## The end of a turn -/

/-- The session and the detector with which an append calls `vadEndOfTurn`, if it
does. -/
def turnEnd (env : Env F) (s : Session F) (audio : Lib.Bytes) : Option (Session F × VadState F) :=
  let raw := Lib.Base64.decodeString audio
  let (ms, energy) := audioEnergy raw audio.length (codecFor env s.cfg.inputFormat)
  let s :=
    { s with
      audioBuffer := true
      bufferedMs := GoFloat.add s.bufferedMs ms
      audioBuf := s.audioBuf ++ (raw.getD []).take (maxBufferedAudioBytes - s.audioBuf.length) }
  match s.vad with
  | none => none
  | some v =>
    let speech := GoFloat.lt (GoFloat.ofInt 0) energy &&
      GoFloat.le (GoFloat.mul v.cfg.threshold (GoFloat.lit 1 1)) energy
    let v :=
      { v with totalMs := GoFloat.add v.totalMs ms, silenceMs := GoFloat.add v.silenceMs ms }
    if v.speechActive && !speech &&
        !GoFloat.lt v.silenceMs (GoFloat.ofInt v.cfg.silenceDurationMs) then
      some ({ s with vad := some v }, v)
    else none

variable {env}

theorem turnEnd_some (h : turnEnd env s audio = some (s₁, v)) :
    s.appendAudio env audio = s₁.vadEndOfTurn env v ∧ s₁.audioBuffer = true ∧ s₁.vad = some v ∧
      v.speechActive = true ∧ (s.Cyclic → s₁.Cyclic) := by
  unfold turnEnd at h
  dsimp only at h
  cases hv : s.vad with
  | none => simp [hv] at h
  | some v₀ =>
    simp only [hv, ite_none_right_eq_some, Bool.and_eq_true, Bool.not_eq_true',
      some.injEq, Prod.mk.injEq] at h
    obtain ⟨⟨⟨hon, hsilent⟩, hlong⟩, rfl, rfl⟩ := h
    refine ⟨?_, rfl, rfl, hon, ?_⟩
    · unfold appendAudio
      simp only [hv, vadAppend, hsilent, hon, hlong, Bool.not_true, Bool.false_eq_true, if_false]
    · rintro hcyc w hw
      obtain rfl := some.inj hw
      exact hcyc v₀ hv

theorem vadStart_out (hq : s.PlainQueue) (v : VadState F) (startMs ms : F) :
    ∃ audioMs rest, (s.vadStart v startMs ms).2 = .speechStarted audioMs (s.nextID .item).2 :: rest ∧
      ∀ e ∈ rest, e.isPlain = true := by
  have h := s.vadStart_cases v startMs ms
  generalize s.vadStart v startMs ms = r at h
  cases h with
  | beside => exact ⟨_, [], rfl, by simp⟩
  | cancels hinf => exact ⟨_, _, rfl, ((cancelInflight_quiet hinf .turnDetected).plain hq).2⟩

theorem vadStart_not_stopped (hq : s.PlainQueue) (v : VadState F) (startMs ms : F) (t : Int)
    (id : String) : .speechStopped t id ∉ (s.vadStart v startMs ms).2 := by
  obtain ⟨audioMs, rest, hout, hrest⟩ := vadStart_out hq v startMs ms
  rw [hout]
  intro hmem
  rcases mem_cons.mp hmem with heq | hmem
  · cases heq
  · exact absurd (hrest _ hmem) (by simp [isPlain])

theorem turnEnd_none (hq : s.PlainQueue) (h : turnEnd env s audio = none) (t : Int) (id : String) :
    .speechStopped t id ∉ (s.appendAudio env audio).2 := by
  unfold turnEnd at h
  dsimp only at h
  unfold appendAudio
  dsimp only
  cases hv : s.vad with
  | none => simp
  | some v₀ =>
    simp only [hv, ite_eq_right_iff, reduceCtorEq, imp_false, Bool.and_eq_true,
      Bool.not_eq_true', not_and] at h
    dsimp only [vadAppend]
    split
    · split
      · exact vadStart_not_stopped (by exact hq) _ _ _ t id
      · simp
    next hon =>
      split
      · simp
      next hsilent =>
        split
        · simp
        next hlong =>
          have hend := h ⟨by simpa using hon, Bool.eq_false_iff.mpr hsilent⟩
          exact absurd (Bool.eq_false_iff.mpr hlong) hend

/-- In a state of the cycle, the commit that ends a turn succeeds and the turn is over. -/
theorem turnEnd_commit (hcyc : s.Cyclic) (h : turnEnd env s audio = some (s₁, v)) :
    let commit := commitBuffer env { s₁ with vadCommitting := true }
    (∀ body, .error body ∉ commit.2) ∧ (commit.1.vad.map (·.speechActive)).getD false = false := by
  obtain ⟨_, hbuf, hvad, hon, hcyc₁⟩ := turnEnd_some h
  obtain ⟨⟨prev, rest, hout, hrest⟩, _, hv⟩ := commitBuffer_stop env hbuf hvad (hcyc₁ hcyc) hon
  refine ⟨fun body hmem => ?_, ?_⟩
  · rw [hout] at hmem
    rcases mem_cons.mp hmem with heq | hmem
    · cases heq
    · exact (hrest _ hmem).2 body rfl
  · rw [hv, vadReset]
    cases s₁.vad <;> rfl

end Session

variable [GoFloat F]

open Session

theorem Setup.follows (env : Env F) (setup : Setup) : (setup.session env).Follows Floor.empty := by
  have hsilent := setup.silent env
  refine ⟨rfl, ?_, ?_, by simp [Floor.empty], ?_⟩
  · intro v hv
    simp [hsilent v hv]
  · intro id hid
    obtain ⟨v, hv, rfl, hne⟩ := pendingItem_eq_some hid
    exact absurd (hsilent v hv).2 hne
  · rw [PlainQueue, queue, (setup.fresh env).inflight]
    simp

/-- After every run the detector speaks exactly while it holds an announced id; in
the events of the run a stop is followed at once by the commit of the item that the
latest start announced, and no item is committed twice; and whenever an append ends a
turn, the commit it issues emits no error and leaves the turn over, so that the reset
after it is never made. -/
theorem vad_turn_cycle (env : Env F) (setup : Setup) (calls : List Call) :
    (∀ v, ((setup.session env).run env calls).vad = some v →
      (v.speechActive = true ↔ v.pendingItemID ≠ "")) ∧
    WellTurned (((setup.session env).trace env calls).map fun e => e.event.turn) ∧
    ∀ ce : ClientEvent, ce.type = .audioAppend →
      let s := { (setup.session env).run env calls with lastClientEventID := ce.eventID }
      (turnEnd env s ce.audio = none → ∀ t id, .speechStopped t id ∉ (s.dispatch env ce).2) ∧
      ∀ s₁ v, turnEnd env s ce.audio = some (s₁, v) →
        let commit := commitBuffer env { s₁ with vadCommitting := true }
        s.dispatch env ce = s₁.vadEndOfTurn env v ∧ (∀ body, .error body ∉ commit.2) ∧
          (commit.1.vad.map (·.speechActive)).getD false = false := by
  obtain ⟨f, hr, hf⟩ := run_turns env calls (setup.follows env)
  refine ⟨hf.cyclic, Floor.run_wellTurned hr hf.due, ?_⟩
  intro ce htype s
  have hplain : s.PlainQueue := hf.plain
  have hcyc : s.Cyclic := hf.cyclic
  have happend : s.dispatch env ce = s.appendAudio env ce.audio := by
    rw [dispatch, htype]
  rw [happend]
  refine ⟨fun hnone => turnEnd_none hplain hnone, fun s₁ v hend => ?_⟩
  exact ⟨(turnEnd_some hend).1, turnEnd_commit hcyc hend⟩

end MockAgents.Realtime
