import MockAgents.Realtime.Proofs.Responses
/-!
# Every handler keeps the index

Each handler takes a sound session to a sound one and announces, in order, only
predecessors the client knows.
-/

namespace MockAgents.Realtime

open List Event

variable {F : Type}
variable (env : Env F) (s : Session F)

/-! ## Ladders -/

theorem laddered_append {events : Events F} (h : ∀ e ∈ events, e.moves = false)
    (open_ : Option String) (rest : Events F) :
    Laddered open_ (events ++ rest) ↔ Laddered open_ rest := by
  induction events with
  | nil => exact Iff.rfl
  | cons ev events ih =>
    rw [cons_append, laddered_cons (h ev mem_cons_self)]
    exact ih fun e he => h e (mem_cons_of_mem _ he)

namespace Session

/-- A ladder built for the default conversation: its items are new, it opens and
closes them in turn and announces each after the one before. -/
structure FreshLadder (s : Session F) (prev : Option String) (events : List (Event F ItemRef))
    (finals : List ItemRef) (s' : Session F) : Prop where
  grows : s.Extends s'
  laddered : ∀ rest, Laddered none rest → Laddered none (events ++ rest)
  added : addedIDs events = finals.map (·.id)
  announced : ∀ known : String → Prop, (∀ id, prev = some id → known id) →
    Announced (·.id) known events
  minted : ∀ item ∈ finals, s'.Minted item.id
  fresh : ∀ item ∈ finals, ¬ s.Minted item.id
  free : ∀ item ∈ finals, item.id ∉ s.items
  nodup : (finals.map (·.id)).Nodup

theorem freshLadder_nil (prev : Option String) : s.FreshLadder prev [] [] s :=
  ⟨.refl s, fun _ h => h, rfl, fun _ _ => trivial, by simp, by simp, by simp, by simp⟩

variable {s s' s₁ s₂ : Session F} {finals : List ItemRef} {prev : Option String}
variable {P : (String → Prop) → Prop} {out events : Events F}
variable {rest : Events F} {plan : Plan} {s₃ : Session F} {Q : (String → Prop) → Prop}

theorem freshLadder_item {k : IDKind} (hgrows : (s.nextID k).1.Extends s') (respID : String)
    (i : Nat) (prev : Option String) {a b : ItemRef} (ha : a.id = (s.nextID k).2)
    (hb : b.id = (s.nextID k).2) (body : List (LadderEvent ItemRef)) :
    s.FreshLadder prev (itemLadder respID i false prev a b body) [b] s' := by
  have hbody : ∀ e ∈ body.map (ladder (F := F) respID i), e.moves = false := by
    intro e he
    obtain ⟨ev, _, rfl⟩ := mem_map.mp he
    rfl
  have hprev : ∀ e ∈ body.map (ladder (F := F) respID i), e.prev = none :=
    fun e he => Event.prev_of_not_moves (hbody e he)
  have hadded : addedIDs (body.map (ladder (F := F) respID i)) = [] :=
    addedIDs_of_silent fun e he => Event.added_of_not_moves (hbody e he)
  have heq : (itemLadder respID i false prev a b body : Events F) =
      [.ladder respID i (.outputItemAdded a), .itemAdded prev a] ++
        body.map (ladder respID i) ++
        [.ladder respID i (.outputItemDone b), .itemDone prev b] := by
    simp [itemLadder]
  rw [heq]
  refine ⟨(extends_nextID s k).trans hgrows, ?_, ?_, ?_, ?_, ?_, ?_, by simp⟩
  · intro rest hrest
    rw [append_assoc]
    show Laddered (some a.id) (body.map (ladder respID i) ++ _)
    rw [laddered_append hbody]
    exact ⟨hb.trans ha.symm, hrest⟩
  · simp [addedIDs, Event.added, ha, hb]
  · intro known hk
    have hopen : Announced (fun item : ItemRef => item.id) known
        [ladder (F := F) respID i (.outputItemAdded a), .itemAdded prev a] := by
      refine ⟨fun id h => absurd h (by simp [Event.prev]), ?_, trivial⟩
      exact fun id h => .inl (hk id h)
    refine (hopen.append (announced_of_silent _ hprev)).append ⟨?_, ?_, trivial⟩
    · exact fun id h => absurd h (by simp [Event.prev])
    · exact fun id h => .inl (.inl (hk id h))
  · intro item hitem
    obtain rfl : item = b := by simpa using hitem
    rw [hb]
    exact hgrows.minted (s.nextID_minted k)
  · intro item hitem hm
    obtain rfl : item = b := by simpa using hitem
    exact s.nextID_ne_minted k hm hb.symm
  · intro item hitem
    obtain rfl : item = b := by simpa using hitem
    rw [hb]
    exact s.nextID_fresh k

theorem FreshLadder.cons {final : ItemRef}
    (h : s.FreshLadder prev events [final] s₁) (h' : s₁.FreshLadder (some final.id) rest finals s₂)
    : s.FreshLadder prev (events ++ rest) (final :: finals) s₂ := by
  refine ⟨h.grows.trans h'.grows, ?_, ?_, ?_, ?_, ?_, ?_, ?_⟩
  · intro more hmore
    rw [append_assoc]
    exact h.laddered _ (h'.laddered _ hmore)
  · rw [addedIDs_append, h.added, h'.added]
    rfl
  · intro known hk
    refine (h.announced known hk).append (h'.announced _ ?_)
    intro id hid
    rw [h.added]
    exact .inr (by simp_all)
  · intro item hitem
    rcases mem_cons.mp hitem with rfl | hitem
    · exact h'.grows.minted (h.minted item (by simp))
    · exact h'.minted item hitem
  · intro item hitem
    rcases mem_cons.mp hitem with rfl | hitem
    · exact h.fresh item (by simp)
    · exact fun hm => h'.fresh item hitem (h.grows.minted hm)
  · intro item hitem
    rcases mem_cons.mp hitem with rfl | hitem
    · exact h.free item (by simp)
    · rw [← h.grows.unmoved.items]
      exact h'.free item hitem
  · rw [map_cons, nodup_cons]
    refine ⟨?_, h'.nodup⟩
    intro hmem
    obtain ⟨item, hitem, hid⟩ := mem_map.mp hmem
    exact h'.fresh item hitem (hid ▸ h.minted final (by simp))

theorem freshLadder_tools (respID : String) {rc : ResponseCtx} (hoob : rc.outOfBand = false)
    (tcs : List ToolCallSpec) (i : Nat) (prev : Option String) (s : Session F) :
    s.FreshLadder prev (appendToolLadders respID rc tcs i prev s).2.1
      (appendToolLadders respID rc tcs i prev s).2.2 (appendToolLadders respID rc tcs i prev s).1 := by
  induction tcs generalizing i prev s with
  | nil => exact freshLadder_nil s prev
  | cons tc tcs ih =>
    unfold appendToolLadders
    simp only [hoob, Bool.false_eq_true, if_false]
    refine FreshLadder.cons ?_ (ih _ _ _)
    unfold appendFunctionCallLadder
    rw [hoob]
    apply freshLadder_item
    · exact ((extends_nextID _ .call).trans (extends_alloc ..)).trans
        (extends_alloc _ (s.nextID .fc).2 _)
    · rfl
    · rfl

theorem freshLadder_build (s : Session F) (respID : String) (hoob : plan.rc.outOfBand = false) :
    s.FreshLadder s.previousItemID (s.buildLadder env respID plan).2.1
      (s.buildLadder env respID plan).2.2 (s.buildLadder env respID plan).1 := by
  unfold buildLadder
  split
  · simp only [hoob, Bool.false_eq_true, if_false]
    refine FreshLadder.cons ?_ (freshLadder_tools respID hoob _ _ _ _)
    unfold appendMessageLadder
    rw [hoob]
    apply freshLadder_item
    · exact (extends_alloc ..).trans (extends_alloc _ (s.nextID .msg).2 _)
    · rfl
    · rfl
  · exact freshLadder_tools respID hoob _ _ _ _

theorem buildLadder_silent (s : Session F) (respID : String) (hoob : plan.rc.outOfBand = true) :
    ∀ e ∈ (s.buildLadder env respID plan).2.1, e.moves = false := by
  intro e he
  cases onLadder_build env s plan he with
  | carried => rfl
  | added h | done h => exact absurd hoob (by simp [h])

/-! ## What a step announces -/

/-- The session is sound after the step; with the items known before it, what it
announced makes the items known after it, and every `previous_item_id` was known
when it was announced, if `P` holds of what was known. -/
structure Leads (s : Session F) (P : (String → Prop) → Prop) (out : List (Event F ItemRef))
    (s' : Session F) : Prop where
  sound : s'.Sound
  known : ∀ known : String → Prop, (∀ id ∈ s.items, known id) →
    (∀ id ∈ s'.items, known id ∨ id ∈ addedIDs out) ∧ (P known → Announced (·.id) known out)

def always : (String → Prop) → Prop := fun _ => True

theorem Leads.trans {o₁ o₂ : Events F} (h₁ : Leads s₁ P o₁ s₂)
    (h₂ : s₂.Sound → Leads s₂ always o₂ s₃) : Leads s₁ P (o₁ ++ o₂) s₃ := by
  have h₂ := h₂ h₁.sound
  refine ⟨h₂.sound, ?_⟩
  intro known hk
  obtain ⟨hmem, hann⟩ := h₁.known known hk
  obtain ⟨hmem', hann'⟩ := h₂.known _ hmem
  refine ⟨?_, fun hP => (hann hP).append (hann' trivial)⟩
  intro id hid
  rw [addedIDs_append, mem_append, ← or_assoc]
  exact hmem' id hid

theorem Leads.prepend {more : Events F}
    (hstep : ∀ known : String → Prop, (∀ id ∈ s.items, known id) →
      (∀ id ∈ s₁.items, known id ∨ id ∈ addedIDs out) ∧
        (P known → Announced (·.id) known out ∧ Q fun id => known id ∨ id ∈ addedIDs out))
    (h : Leads s₁ Q more s') : Leads s P (out ++ more) s' := by
  refine ⟨h.sound, ?_⟩
  intro known hk
  obtain ⟨hmem, hann⟩ := hstep known hk
  obtain ⟨hmem', hann'⟩ := h.known _ hmem
  refine ⟨?_, fun hP => (hann hP).1.append (hann' (hann hP).2)⟩
  intro id hid
  rw [addedIDs_append, mem_append, ← or_assoc]
  exact hmem' id hid

theorem Leads.unmoved (hs : s'.Sound) (hi : s'.items = s.items) (hout : ∀ e ∈ out, e.moves = false)
    : Leads s P out s' := by
  refine ⟨hs, fun known hk => ⟨fun id hid => .inl (hk id (hi ▸ hid)), fun _ => ?_⟩⟩
  exact announced_of_silent known fun e he => Event.prev_of_not_moves (hout e he)

theorem Leads.still (hs : s.Sound) (hu : s.Unmoved s') (hf : s'.inflight = s.inflight)
    (hout : ∀ e ∈ out, e.moves = false) : Leads s P out s' :=
  .unmoved (hu.sound hf hs) hu.items hout

theorem Leads.from (h : Leads s₂ P out s₃) (hi : s₂.items = s₁.items) : Leads s₁ P out s₃ :=
  ⟨h.sound, fun known hk => h.known known (hi ▸ hk)⟩

theorem Leads.weaken (h : Leads s P out s') (hPQ : ∀ known, Q known → P known) : Leads s Q out s' :=
  ⟨h.sound, fun known hk => ⟨(h.known known hk).1, fun hQ => (h.known known hk).2 (hPQ known hQ)⟩⟩

/-! ## Responses -/

theorem joinItems_guarded (finals : List ItemRef) (hs : s.Guarded [])
    (hne : ∀ item ∈ finals, item.id ≠ "") (hfree : ∀ item ∈ finals, item.id ∉ s.items)
    (hnodup : (finals.map (·.id)).Nodup) (hpending : ∀ item ∈ finals, item.id ∉ s.waiting []) :
    (finals.foldl joinEmittedItem s).Guarded [] ∧
      ∀ id ∈ (finals.foldl joinEmittedItem s).items, id ∈ s.items ∨ id ∈ finals.map (·.id) := by
  induction finals generalizing s with
  | nil => exact ⟨hs, fun id hid => .inl hid⟩
  | cons item finals ih =>
    rw [map_cons, nodup_cons] at hnodup
    rw [forall_mem_cons] at hne hfree hpending
    obtain ⟨hidx, hsub⟩ := hs.index.tail hne.1 hfree.1
    rw [← joinEmittedItem_eq hs.index hne.1] at hidx hsub
    obtain ⟨items, order, last, history, heq⟩ := s.reindexed_joinEmittedItem item
    have hwait : (s.joinEmittedItem item).waiting [] = s.waiting [] := by
      rw [heq]
      rfl
    have hs₁ : (s.joinEmittedItem item).Guarded [] := by
      refine hs.shrink hidx (by rw [heq]) (by rw [heq]) (by rw [hwait]) ?_ hs.ladder
      intro id hid hm
      rw [hwait] at hid
      rcases hsub id hm with rfl | hm
      · exact hpending.1 hid
      · exact hs.free id hid hm
    have hfree₁ : ∀ x ∈ finals, x.id ∉ (s.joinEmittedItem item).items := by
      intro x hx hm
      rcases hsub x.id hm with h | h
      · exact hnodup.1 (h ▸ mem_map_of_mem hx)
      · exact hfree.2 x hx h
    obtain ⟨hg, hmem⟩ := ih hs₁ hne.2 hfree₁ hnodup.2 (hwait ▸ hpending.2)
    refine ⟨hg, fun id hid => ?_⟩
    rcases hmem id hid with h | h
    · rcases hsub id h with rfl | h
      · exact .inr mem_cons_self
      · exact .inl h
    · exact .inr (mem_cons_of_mem _ h)

theorem FreshLadder.join (h : s.FreshLadder prev events finals s₁) (hs : s.Guarded [])
    (h₂ : s₁.Unmoved s₂) :
    (finals.foldl joinEmittedItem s₂).Guarded [] ∧
      ∀ id ∈ (finals.foldl joinEmittedItem s₂).items, id ∈ s.items ∨ id ∈ finals.map (·.id) := by
  have hu := h.grows.unmoved.trans h₂
  rw [← hu.items]
  apply joinItems_guarded finals (hu.guarded hs)
  · intro item hitem
    exact (h.minted item hitem).ne_empty
  · intro item hitem
    rw [hu.items]
    exact h.free item hitem
  · exact h.nodup
  · intro item hitem hm
    exact h.fresh item hitem (hs.minted _ ((hu.waiting []).subset hm))

theorem FreshLadder.enqueue
    (h : s.FreshLadder prev events finals s₁) (hs : s.Guarded []) (h₂ : s₁.Unmoved s₂)
    (hrest : ∀ e ∈ rest, e.moves = false) : s₂.Guarded (events ++ rest) := by
  have hu := h.grows.unmoved.trans h₂
  have hs₂ := hu.guarded hs
  have hwait : s₂.waiting (events ++ rest) = s₂.waiting [] ++ finals.map (·.id) := by
    have hadded : addedIDs rest = [] :=
      addedIDs_of_silent fun e he => Event.added_of_not_moves (hrest e he)
    rw [waiting, addedIDs_append, h.added, hadded]
    simp [waiting, addedIDs]
  refine ⟨hs₂.index, ?_, ?_, ?_, none, ?_⟩
  · intro id hid
    rw [hwait] at hid
    rcases mem_append.mp hid with hid | hid
    · exact hs₂.minted id hid
    · obtain ⟨item, hitem, rfl⟩ := mem_map.mp hid
      exact (h.minted item hitem).mono h₂.id h₂.counter
  · intro id hid
    rw [hwait] at hid
    rcases mem_append.mp hid with hid | hid
    · exact hs₂.free id hid
    · obtain ⟨item, hitem, rfl⟩ := mem_map.mp hid
      rw [hu.items]
      exact h.free item hitem
  · rw [hwait]
    refine Nodup.append hs₂.nodup h.nodup ?_
    intro id hid hid'
    obtain ⟨item, hitem, rfl⟩ := mem_map.mp hid'
    exact h.fresh item hitem (hs.minted _ ((hu.waiting []).subset hid))
  · apply h.laddered
    rw [← append_nil rest, laddered_append hrest]
    trivial

theorem leads_emitResponse (respID : String) (plan : Plan) (hs : s.Sound)
    (hfree : plan.rc.outOfBand = false → s.inflight = none) :
    Gives (Leads s always) (s.emitResponse env respID plan) := by
  have hgrow := extends_buildLadder env s respID plan
  have hopen : ∀ e ∈ s.openingEvents respID plan, e.moves = false := by
    simp [openingEvents, Event.moves]
  cases hoob : plan.rc.outOfBand with
  | true =>
    have hsilent := buildLadder_silent env s respID hoob
    have hflight : (s.buildLadder env respID plan).1.inflight = s.inflight := by
      obtain ⟨n, heap, hn, heq⟩ := hgrow
      rw [heq]
    unfold emitResponse
    simp only [hoob, Bool.not_true, Bool.and_false, Bool.false_eq_true, if_false, finishBurst, if_true]
    refine Leads.unmoved ?_ hgrow.unmoved.items ?_
    · refine (hgrow.unmoved.trans ?_).sound hflight hs
      exact ⟨rfl, le_rfl, rfl, rfl, rfl, .inl rfl⟩
    · intro e he
      simp only [mem_append, mem_singleton] at he
      rcases he with (he | he) | rfl
      · exact hopen e he
      · exact hsilent e he
      · rfl
  | false =>
    have hladder := freshLadder_build env s respID hoob
    have hs₀ := hs.guarded_nil (hfree hoob)
    have hann : ∀ (r : ResponseObject ItemRef) (known : String → Prop), (∀ id ∈ s.items, known id) →
        Announced (·.id) known (s.openingEvents respID plan ++ (s.buildLadder env respID plan).2.1 ++
          [.responseDone r]) := by
      intro r known hk
      refine ((announced_of_silent known fun e he => Event.prev_of_not_moves (hopen e he)).append
        (hladder.announced _ ?_)).append ⟨?_, trivial⟩
      · exact fun id hid => .inl (hk id (hs₀.index.previous hid))
      · exact fun id hid => absurd hid (by simp [Event.prev])
    have hadded : ∀ r : ResponseObject ItemRef, addedIDs (s.openingEvents respID plan ++
        (s.buildLadder env respID plan).2.1 ++ [.responseDone r]) =
          (s.buildLadder env respID plan).2.2.map (·.id) := by
      intro r
      rw [addedIDs_append, addedIDs_append, hladder.added,
        addedIDs_of_silent fun e he => Event.added_of_not_moves (hopen e he)]
      simp [addedIDs, Event.added]
    have hflight : (s.buildLadder env respID plan).1.inflight = none := by
      obtain ⟨n, heap, hn, heq⟩ := hgrow
      rw [heq]
      exact hfree hoob
    unfold emitResponse
    dsimp only
    split
    · refine ⟨?_, fun known hk => ⟨fun id hid => .inl ?_, fun _ => ?_⟩⟩
      · refine hladder.enqueue hs₀ ?_ (by simp [Event.moves])
        exact ⟨rfl, le_rfl, rfl, rfl, rfl, .inl rfl⟩
      · rw [← hgrow.unmoved.items] at hk
        exact hk id hid
      · -- the opening events go out at once
        exact announced_of_silent known fun e he => Event.prev_of_not_moves (hopen e he)
    · simp only [finishBurst, hoob, Bool.false_eq_true, if_false]
      set s₂ : Session F := if (plan.emitMessage && !plan.rc.textOnly) = true then _ else _ with hs₂
      have hu : (s.buildLadder env respID plan).1.Unmoved s₂ ∧ s₂.inflight = none := by
        rw [hs₂]
        split <;> exact ⟨⟨rfl, le_rfl, rfl, rfl, rfl, .inl rfl⟩, hflight⟩
      obtain ⟨hg, hmem⟩ := hladder.join hs₀ hu.1
      have harm := armIdleTimer_aside env ((s.buildLadder env respID plan).2.2.foldl joinEmittedItem s₂)
      obtain ⟨items, order, last, history, heq⟩ :=
        s₂.reindexed_joinItems (s.buildLadder env respID plan).2.2
      have hnone : ((s.buildLadder env respID plan).2.2.foldl joinEmittedItem s₂).inflight = none := by
        rw [heq]
        exact hu.2
      refine ⟨harm.unmoved.sound harm.inflight (hg.sound_nil hnone),
        fun known hk => ⟨?_, fun _ => hann _ known hk⟩⟩
      intro id hid
      rw [harm.unmoved.items] at hid
      rw [hadded]
      exact (hmem id hid).imp_left (hk id)

theorem leads_createResponse (ce : ClientEvent) (hs : s.Sound) :
    Gives (Leads s always) (s.createResponse env ce) := by
  rcases s.createResponse_cases env ce with ⟨e, h⟩ | ⟨hfree, h⟩
  · rw [h]
    exact .unmoved hs rfl (by simp [Event.moves])
  · generalize s.createResponse env ce = r at h
    cases h with
    | failed hp msg =>
      have ha := hp.failed env msg
      exact Leads.still hs ha.unmoved ha.inflight (by simp [failedResponse, Event.moves])
    | emitted hp =>
      refine (leads_emitResponse env _ _ (hp.aside.unmoved.sound hp.aside.inflight hs) ?_).from
        hp.aside.unmoved.items
      exact fun hmain => hp.aside.inflight.trans (hfree hmain).1

end Session

end MockAgents.Realtime
