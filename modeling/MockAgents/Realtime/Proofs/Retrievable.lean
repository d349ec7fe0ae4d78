import MockAgents.Realtime.Proofs.Announce
/-!
# Queues, truncations and joins

The queue of a paced response moves the index as it is emitted or closed out, a
truncation rewrites it without moving anything, and a committed turn joins the tail.
-/

namespace MockAgents.Realtime

variable {F : Type}
variable (env : Env F)

namespace Session

/-! ## Emitting and closing out a queue -/

variable {ev : Event F ItemRef} {inf : Inflight F} {s s₁ : Session F}
variable {queue queue' : Events F}
variable {rest : Events F} {g : Inflight F → Inflight F} {id : String}

theorem Emission.emits {s' : Session F} {inf' : Inflight F} {out : Events F}
    (h : Emission s inf ev s' inf' out) (hl : ∃ open_, Laddered open_ (ev :: rest)) :
    Emits s inf ev s' inf' out := by
  cases h with
  | added prev item => exact .added prev item
  | suppressed prev item hdel => exact .suppressed prev item hdel
  | done prev item hdel => exact .done prev item hdel
  | heard =>
    exact .other rfl ⟨rfl, le_rfl, rfl, rfl, rfl, .inl rfl⟩ rfl rfl rfl (by simp [Event.moves])
  | carried respID i lev heap htracks hchain hout =>
    refine .other rfl ⟨rfl, le_rfl, rfl, rfl, rfl, .inl rfl⟩ rfl htracks.deleted hchain fun e he => ?_
    obtain ⟨lev', rfl, -⟩ := hout e he
    rfl
  | other hladder hadded hdone hout =>
    have hev : ev.moves = false := by
      cases ev with
      | itemAdded => exact absurd rfl (hadded _ _)
      | itemDone => exact absurd rfl (hdone _ _)
      | bufferCommitted =>
        exact absurd hl (by simp [Laddered])
      | _ => rfl
    refine .other hev ⟨rfl, le_rfl, rfl, rfl, rfl, .inl rfl⟩ rfl rfl rfl fun e he => ?_
    rw [hout e he, hev]

theorem leads_drainCancelled (queue : Events F) (hs : s.Guarded queue)
    (ho : s.OpenKept inf queue) (hfree : s.inflight = none) :
    Leads s (PrevKnown inf queue) (drainCancelled queue s inf).2.2 (drainCancelled queue s inf).1 ∧
      (drainCancelled queue s inf).1.inflight = none := by
  have hstop : Leads s (PrevKnown inf queue) [] s :=
    .unmoved (hs.nil.sound_nil hfree) rfl (by simp)
  induction queue generalizing s inf with
  | nil => exact ⟨hstop, hfree⟩
  | cons ev rest ih =>
    unfold drainCancelled
    split
    · exact ⟨hstop, hfree⟩
    next s' inf' out hc =>
      have hemits := (closeOut_cases hc).1.emits hs.ladder
      obtain ⟨hs', ho', hknown⟩ := hemits.guarded hs ho
      have hfree' : s'.inflight = none := hemits.inflight.trans hfree
      obtain ⟨hrest, hend⟩ :=
        ih hs' ho' hfree' (.unmoved (hs'.nil.sound_nil hfree') rfl (by simp))
      exact ⟨hrest.prepend hknown, hend⟩

theorem leads_cancelInflight (reason : CancelReason) (hs : s.Guarded inf.queue)
    (ho : s.OpenKept inf inf.queue) :
    Gives (Leads s (PrevKnown inf inf.queue)) (s.cancelInflight inf reason) ∧
      (s.cancelInflight inf reason).1.inflight = none := by
  unfold cancelInflight
  set s₁ : Session F := { s with
    inflight := none
    pendingResponse := if reason = .turnDetected then false else s.pendingResponse
    idleAt := 0 } with hs₁
  have h₁ : s.Unmoved s₁ := ⟨rfl, le_rfl, rfl, rfl, rfl, .inl rfl⟩
  have ho₁ : s₁.OpenKept inf inf.queue := ho
  obtain ⟨hdrain, hend⟩ := leads_drainCancelled inf.queue (h₁.guarded hs) ho₁ rfl
  refine ⟨(hdrain.from h₁.items).trans fun hs₂ => ?_, hend⟩
  refine Leads.unmoved (Unmoved.sound ?_ ?_ hs₂) ?_ (by simp [Event.moves])
  · exact ⟨rfl, le_rfl, rfl, rfl, rfl, .inl rfl⟩
  · rfl
  · rfl

theorem leads_completeResponse (inf : Inflight F) (hs : s.Guarded []) :
    Gives (Leads s always) (s.completeResponse env inf) := by
  unfold completeResponse
  dsimp only
  set s₁ : Session F := { s with history := s.history ++ inf.onDone, inflight := none } with hs₁
  have h₁ : s.Unmoved s₁ := ⟨rfl, le_rfl, rfl, rfl, rfl, .inl rfl⟩
  have hsound : s₁.Sound := (h₁.guarded hs).sound_nil rfl
  split
  · have ha : s₁.Aside { s₁ with pendingResponse := false } := .scratch rfl
    exact (leads_createResponse env {} (ha.unmoved.sound rfl hsound)).from rfl
  · have harm := armIdleTimer_aside env s₁
    exact (Leads.still hsound harm.unmoved harm.inflight (by simp)).from h₁.items

theorem leads_tickLoop (now : Int) (queue : Events F)
    (hq : inf.queue = queue) (hs : s.Guarded queue) (ho : s.OpenKept inf queue) :
    Gives (Leads s (PrevKnown inf queue)) (tickLoop env now queue s inf) := by
  have hpark : ∀ (P : (String → Prop) → Prop) (s : Session F) (inf : Inflight F) t,
      s.Guarded inf.queue → Leads s P [] { s with inflight := some { inf with nextAt := t } } := by
    intro P s inf t hs
    refine Leads.unmoved (Unmoved.guarded ?_ hs) ?_ (by simp)
    · exact ⟨rfl, le_rfl, rfl, rfl, rfl, .inl rfl⟩
    · rfl
  induction queue generalizing s inf with
  | nil =>
    exact hpark _ s inf inf.nextAt (by rwa [hq])
  | cons ev rest ih =>
    have hemission := emitQueued_cases s { inf with queue := rest } ev
    have hemits := hemission.emits hs.ladder
    obtain ⟨hs', ho', hknown⟩ := hemits.guarded hs ho
    have hrest := hemission.tracks.queue
    unfold tickLoop
    dsimp only
    split
    next hnil =>
      subst hnil
      have hdone := leads_completeResponse env (s.emitQueued { inf with queue := [] } ev).2.1 hs'
      exact (hdone.weaken fun _ _ => trivial).prepend hknown
    · split
      · rw [← List.append_nil (s.emitQueued { inf with queue := rest } ev).2.2]
        exact Leads.prepend hknown (hpark _ _ _ _ (by rwa [hrest]))
      · exact Leads.prepend hknown (Leads.weaken (ih hrest hs' ho') fun _ h => h)

/-- What is assumed of the response in flight when its queue moves. -/
def OpenItemKept (s : Session F) : Prop := ∀ inf, s.inflight = some inf → s.OpenKept inf inf.queue

/-- The predecessor of the item still streaming is among the known items. -/
def OpenPrevKnown (s : Session F) (known : String → Prop) : Prop :=
  ∀ inf, s.inflight = some inf → PrevKnown inf inf.queue known

theorem Sound.inflight (hs : s.Sound) (h : s.inflight = some inf) : s.Guarded inf.queue := by
  rwa [Sound, queue, h] at hs

theorem leads_drainQueue (now : Int) (hs : s.Sound) (ho : s.OpenItemKept) :
    Gives (Leads s s.OpenPrevKnown) (s.drainQueue env now) := by
  unfold drainQueue
  split
  · exact Leads.unmoved hs rfl (by simp)
  next inf hinf =>
    split
    · exact Leads.unmoved hs rfl (by simp)
    · refine (leads_tickLoop env now inf.queue rfl (hs.inflight hinf) (ho inf hinf)).weaken ?_
      exact fun known h => h inf hinf

/-! ## Truncation and deletion -/

/-- The two queues move the index alike. -/
structure SameMoves (queue queue' : List (Event F ItemRef)) : Prop where
  added : addedIDs queue' = addedIDs queue
  laddered : ∀ open_, Laddered open_ queue' ↔ Laddered open_ queue

theorem SameMoves.skip (h : SameMoves queue queue') (hev : ev.moves = false) :
    SameMoves (ev :: queue) queue' :=
  ⟨h.added.trans (addedIDs_cons hev queue).symm,
    fun open_ => (h.laddered open_).trans (laddered_cons hev open_ queue).symm⟩

theorem SameMoves.keep {e : Event F ItemRef} (h : SameMoves queue queue') (hsent : ev.Sent e) :
    SameMoves (ev :: queue) (e :: queue') := by
  have hadded : addedIDs [e] = addedIDs [ev] := by cases hsent <;> rfl
  constructor
  · show addedIDs ([e] ++ queue') = addedIDs ([ev] ++ queue)
    rw [addedIDs_append, addedIDs_append, hadded, h.added]
  · intro open_
    cases hsent with
    | same => cases ev <;> cases open_ <;> simp only [Laddered, h.laddered]
    | _ => cases open_ <;> simp only [Laddered, h.laddered]

theorem SameMoves.guarded (h : SameMoves queue queue') (hs : s.Guarded queue) :
    s.Guarded queue' := by
  have hw : s.waiting queue' = s.waiting queue := by rw [waiting, waiting, h.added]
  obtain ⟨open_, hl⟩ := hs.ladder
  exact ⟨hs.index, hw ▸ hs.minted, hw ▸ hs.free, hw ▸ hs.nodup, open_, (h.laddered open_).mpr hl⟩

theorem Thinned.sameMoves (h : Thinned queue queue') : SameMoves queue queue' := by
  induction h with
  | nil => exact ⟨rfl, fun _ => Iff.rfl⟩
  | keep hsent _ ih => exact ih.keep hsent
  | drop hdrop _ ih =>
    rcases hdrop with ⟨_, _, _, rfl⟩ | ⟨_, _, _, rfl⟩ <;> exact ih.skip rfl

theorem leads_truncateInflightItem (id : String) (hs : s.Sound) :
    Leads s always [] (s.truncateInflightItem id) := by
  rcases s.truncateInflightItem_cases id with h | ⟨inf, heap, queue, onDone, hinf, hthin, h⟩
  · rw [h]
    exact Leads.unmoved hs rfl (by simp)
  · rw [h]
    refine Leads.unmoved (Unmoved.guarded ?_ (hthin.sameMoves.guarded (hs.inflight hinf))) rfl (by simp)
    exact ⟨rfl, le_rfl, rfl, rfl, rfl, .inl rfl⟩

theorem queue_map_inflight (s : Session F)
    (hg : ∀ inf, (g inf).queue = inf.queue) : Session.queue { s with inflight := s.inflight.map g } = s.queue := by
  cases h : s.inflight with
  | none => simp [queue, h]
  | some inf => simp [queue, h, hg]

theorem Sound.map_inflight (hs : s.Sound)
    (hg : ∀ inf, (g inf).queue = inf.queue) : Sound { s with inflight := s.inflight.map g } := by
  have hu : s.Unmoved { s with inflight := s.inflight.map g } :=
    ⟨rfl, le_rfl, rfl, rfl, rfl, .inl rfl⟩
  rw [Sound, s.queue_map_inflight hg]
  exact hu.guarded hs

/-- A deleted item leaves the index; the queue of the response in flight stays. -/
theorem leads_deleteItem (id : String) (hs : s.Sound) :
    Gives (Leads s always) (s.deleteItem env id) := by
  unfold deleteItem
  split
  · exact Leads.unmoved hs rfl (by simp [itemNotFound, Event.moves])
  next loc hloc =>
    have hmem : id ∈ s.items := AList.lookup_isSome.mp (by rw [hloc]; rfl)
    have hsub : ∀ id' ∈ s.items.erase id, id' ∈ s.items := fun id' h => (AList.mem_erase.mp h).2
    refine ⟨?_, fun known hk => ⟨fun id' hid' => .inl (hk id' (hsub id' hid')), fun _ => ?_⟩⟩
    · have hremoved : Sound (removeItem { s with items := s.items.erase id } id) :=
        ⟨hs.index.remove hmem, hs.minted, fun id' hid' hm => hs.free id' hid' (hsub id' hm),
          hs.nodup, hs.ladder⟩
      exact hremoved.map_inflight
        (g := fun inf => { inf with deleted := Function.update inf.deleted id true }) fun _ => rfl
    · exact announced_of_silent known (by simp [Event.prev])

/-! ## Turns and client items -/

theorem announced_item {known : String → Prop} {prev : Option String} (item : ItemRef)
    (h : ∀ id, prev = some id → known id) :
    Announced (F := F) (·.id) known (conversationItemEvents prev item) :=
  ⟨h, fun id hid => .inl (h id hid), trivial⟩

/-- A new id joined the tail and is yet to be remembered. -/
structure Tailed (s : Session F) (joined : String) (s' : Session F) : Prop where
  sess : s'.id = s.id
  counter : s.counter ≤ s'.counter
  items : s'.items = s.items
  itemOrder : s'.itemOrder = s.itemOrder ++ [joined]
  lastItemID : s'.lastItemID = joined
  inflight : s'.inflight = s.inflight
  waiting : (s'.waiting s.queue).Sublist (s.waiting s.queue)
  named : joined ≠ ""
  free : joined ∉ s.items
  taken : joined ∉ s'.waiting s.queue

theorem Tailed.unmoved {s₂ : Session F} (h : s.Tailed id s₁) (hu : s₁.Unmoved s₂)
    (hf : s₂.inflight = s₁.inflight) : s.Tailed id s₂ :=
  ⟨hu.id.trans h.sess, h.counter.trans hu.counter, hu.items.trans h.items,
    hu.itemOrder.trans h.itemOrder, hu.lastItemID.trans h.lastItemID, hf.trans h.inflight,
    (hu.waiting s.queue).trans h.waiting, h.named, h.free,
    fun hm => h.taken ((hu.waiting s.queue).subset hm)⟩

theorem Tailed.remember (item : ItemRef) (h : s.Tailed item.id s₁) (hs : s.Sound) :
    (s₁.rememberItem item).Sound ∧
      ∀ id ∈ (s₁.rememberItem item).items, id = item.id ∨ id ∈ s.items := by
  have hlists : Lists s₁.itemOrder (s₁.items.insert item.id item.loc) := by
    rw [h.itemOrder, h.items]
    exact (hs.index.lists.insert h.free item.loc).perm (List.perm_append_singleton item.id s.itemOrder)
  have hlast : s₁.lastItemID = s₁.itemOrder.getLast?.getD "" := by
    rw [h.lastItemID, h.itemOrder]
    simp
  obtain ⟨hidx, hsub⟩ := rememberItem_indexed h.named hlists hlast (h.items ▸ hs.index.named)
    (h.items ▸ hs.index.bound)
  rw [h.items] at hsub
  obtain ⟨items, order, last, history, heq⟩ := s₁.reindexed_rememberItem item
  have hqueue : (s₁.rememberItem item).queue = s.queue := by
    have hsame : (s₁.rememberItem item).inflight = s.inflight := by
      rw [heq]
      exact h.inflight
    rw [queue, queue, hsame]
  have hwait : (s₁.rememberItem item).waiting s.queue = s₁.waiting s.queue := by
    rw [heq]
    rfl
  refine ⟨?_, hsub⟩
  rw [Sound, hqueue]
  refine hs.shrink hidx ?_ ?_ ?_ ?_ hs.ladder
  · rw [heq]
    exact h.sess
  · rw [heq]
    exact h.counter
  · rw [hwait]
    exact h.waiting
  · intro id hid hm
    rw [hwait] at hid
    rcases hsub id hm with rfl | hm
    · exact h.taken hid
    · exact hs.free id (h.waiting.subset hid) hm

theorem Tailed.store (h : s.Tailed id s₁) (hs : s.Sound) (transcript : Field) (audio : Lib.Bytes) :
    (s₁.storeTurn id transcript audio).1.Sound ∧
      (∀ id' ∈ (s₁.storeTurn id transcript audio).1.items, id' = id ∨ id' ∈ s.items) ∧
      (s₁.storeTurn id transcript audio).2.id = id := by
  have halloc : ∀ (s₂ : Session F) data, s.Tailed id s₂ → s.Tailed id (s₂.alloc id data).1 := by
    intro s₂ data h₂
    exact h₂.unmoved (extends_alloc s₂ id data).unmoved rfl
  unfold storeTurn
  split
  · obtain ⟨h₁, h₂⟩ := Tailed.remember (s₁.alloc id _).2 (halloc s₁ _ h) hs
    exact ⟨h₁, h₂, rfl⟩
  · obtain ⟨h₁, h₂⟩ := Tailed.remember ((s₁.alloc id _).1.alloc id _).2
      (halloc _ _ (halloc s₁ _ h)) hs
    exact ⟨h₁, h₂, rfl⟩

theorem newConversationItem_tailed (hs : s.Sound) :
    s.Tailed s.newConversationItem.2.2 s.newConversationItem.1 :=
  ⟨rfl, (s.nextID_lt .item).le, rfl, rfl, rfl, rfl, List.Sublist.refl _, s.nextID_ne_empty .item,
    s.nextID_fresh .item, fun hm => s.nextID_ne_minted .item (hs.minted _ hm) rfl⟩

end Session

end MockAgents.Realtime
