import MockAgents.Realtime.Proofs.Retrievable
import MockAgents.Realtime.Exact
/-!
# The index over whole runs

In every run in which no client item takes a waiting id and no item is evicted
while it streams, the order lists the items once each, the tail is its last id, and
the client can retrieve every predecessor the server announces.
-/

namespace MockAgents.Realtime

variable {F : Type}
variable (env : Env F)

namespace Session

/-! ## Committed turns -/

variable {id : String} {s : Session F}
variable {s' : Session F} {prev : Option String} {out : Events F}

theorem Leads.turn (opening closing : Events F) {item : ItemRef} (hs : s.Sound) (hs' : s'.Sound)
    (hmem : ∀ id' ∈ s'.items, id' = id ∨ id' ∈ s.items) (hitem : item.id = id)
    (hprev : prev = s.previousItemID) (hopen : ∀ e ∈ opening, e.moves = false)
    (hclose : ∀ e ∈ closing, e.moves = false) :
    Leads s always (opening ++ [.bufferCommitted prev id] ++ conversationItemEvents prev item ++ closing)
      s' := by
  have hknown : ∀ known : String → Prop, (∀ id ∈ s.items, known id) → ∀ id, prev = some id → known id := by
    intro known hk id hid
    exact hk id (hs.index.previous (hprev ▸ hid))
  refine ⟨hs', fun known hk => ⟨?_, fun _ => ?_⟩⟩
  · intro id' hid'
    rcases hmem id' hid' with rfl | h
    · exact .inr (by simp [addedIDs, conversationItemEvents, Event.added, hitem])
    · exact .inl (hk id' h)
  · have hopening : Announced (fun item : ItemRef => item.id) known opening :=
      announced_of_silent known fun e he => Event.prev_of_not_moves (hopen e he)
    have hcommitted : Announced (fun item : ItemRef => item.id) known
        (opening ++ [.bufferCommitted prev id]) :=
      hopening.append ⟨fun id hid => .inl (hknown known hk id hid), trivial⟩
    have hjoined := hcommitted.append
      (announced_item item fun id hid => .inl (hknown known hk id hid))
    exact hjoined.append (announced_of_silent _ fun e he => Event.prev_of_not_moves (hclose e he))

/-! ## Client items -/

/-- The `item.create` would take an id that waits to join. -/
def TakesWaitingID (env : Env F) (s : Session F) (ce : ClientEvent) : Prop :=
  (parseItem env ce.item).id ∈ s.waiting s.queue

theorem leads_addItem (it : ParsedItem) (after : String) (hs : s.Sound)
    (hne : id ≠ "") (hnew : id ∉ s.items) (hwait : id ∉ s.waiting s.queue) :
    Gives (Leads s always) (s.addItem env it id after) := by
  unfold addItem
  split
  · exact Leads.unmoved hs rfl (by simp [Event.moves])
  next prev hprev =>
    dsimp only
    have hknown : ∀ p, prev = some p → p ∈ s.items := by
      intro p hp
      unfold placeItem at hprev
      split at hprev
      · injection hprev with hprev
        exact hs.index.previous (hprev.trans hp)
      · split at hprev
        · injection hprev with hprev
          rw [← hprev] at hp
          cases hp
        · split at hprev
          next hmem =>
            obtain rfl : after = p := by simpa [hp] using hprev
            exact AList.lookup_isSome.mp hmem
          · cases hprev
    set s₁ : Session F := { s.insertItem after id with
      history := (s.insertItem after id).history ++ (clientItem env it).2 } with hs₁
    set s₂ := (s₁.alloc id ⟨.completed, (clientItem env it).1⟩).1 with hs₂
    set item := (s₁.alloc id ⟨.completed, (clientItem env it).1⟩).2 with hitem
    obtain ⟨hidx, hsub⟩ : (s₂.rememberItem item).Indexed ∧
        ∀ id' ∈ (s₂.rememberItem item).items, id' = item.id ∨ id' ∈ s₂.items := by
      apply rememberItem_indexed hne
      · exact (hs.index.lists.insert hnew item.loc).perm (insertAt_perm s.itemOrder after id)
      · rfl
      · exact hs.index.named
      · exact hs.index.bound
    obtain ⟨items, order, last, history, heq⟩ := s₂.reindexed_rememberItem item
    have hqueue : (s₂.rememberItem item).queue = s.queue := by
      rw [heq]
      rfl
    have hsame : (s₂.rememberItem item).waiting s.queue = s.waiting s.queue := by
      rw [heq]
      rfl
    refine ⟨?_, fun known hk => ⟨?_, fun _ => announced_item item fun p hp => hk p (hknown p hp)⟩⟩
    · rw [Sound, hqueue]
      refine hs.shrink hidx ?_ ?_ ?_ ?_ hs.ladder
      · rw [heq]
        rfl
      · rw [heq]
        exact le_rfl
      · rw [hsame]
      · intro id' hid' hm
        rw [hsame] at hid'
        rcases hsub id' hm with rfl | hm
        · exact hwait hid'
        · exact hs.free id' hid' hm
    · intro id' hid'
      rcases hsub id' hid' with h | hm
      · rw [h]
        exact .inr (by simp [addedIDs, conversationItemEvents, Event.added])
      · exact .inl (hk id' hm)

/-! ## Turn detection -/

theorem Sound.announce (hs : s.Sound) (v : VadState F) :
    Sound { (s.nextID .item).1 with vad := some { v with pendingItemID := (s.nextID .item).2 } } := by
  have hpending : pendingItem { (s.nextID .item).1 with
      vad := some { v with pendingItemID := (s.nextID .item).2 } } = some (s.nextID .item).2 := by
    simp [pendingItem, s.nextID_ne_empty .item]
  have hold : ∀ id ∈ addedIDs s.queue, id ∈ s.waiting s.queue := fun id h => List.mem_append_right _ h
  have hnodup : (addedIDs s.queue).Nodup := (List.sublist_append_right _ _).nodup hs.nodup
  refine ⟨hs.index.congr rfl rfl rfl, ?_, ?_, ?_, hs.ladder⟩
  · intro id hid
    rw [waiting] at hid
    rcases List.mem_cons.mp hid with rfl | hid
    · exact s.nextID_minted .item
    · exact (extends_nextID s .item).minted (hs.minted id (hold id hid))
  · intro id hid
    rw [waiting] at hid
    rcases List.mem_cons.mp hid with rfl | hid
    · exact s.nextID_fresh .item
    · exact hs.free id (hold id hid)
  · rw [waiting]
    refine List.nodup_cons.mpr ⟨?_, hnodup⟩
    intro hm
    exact s.nextID_ne_minted .item (hs.minted _ (hold _ hm)) rfl

theorem stamp_announced {known : String → Prop} (s : Session F) (h : Announced (·.id) known out) :
    Announced Item.id known ((s.stamp out).2.map (·.event)) := by
  induction out generalizing s known with
  | nil => trivial
  | cons ev rest ih =>
    unfold stamp
    refine ⟨?_, ?_⟩
    · intro id hid
      exact h.1 id (by simpa using hid)
    · have hadded : ∀ id, ((ev.map s.view).added.map Item.id = some id) ↔
          (ev.added.map (·.id) = some id) := by
        intro id
        rw [Event.added_map, Option.map_map]
        rfl
      simp only [hadded]
      exact ih _ h.2

variable [GoFloat F]

theorem adoptItem_prev (s : Session F) : s.adoptItem.2.1 = s.previousItemID := by
  unfold adoptItem
  split <;> rfl

/-- The announced id of a detected turn stops waiting when it joins. -/
theorem adoptItem_tailed (hs : s.Sound) : s.Tailed s.adoptItem.2.2 s.adoptItem.1 := by
  unfold adoptItem
  split
  next id hid =>
    have hwait : s.waiting s.queue = id :: addedIDs s.queue := by
      rw [waiting, hid]
      rfl
    have hafter : waiting (s.vadReset.joinTail id) s.queue = addedIDs s.queue := by
      show s.vadReset.pendingItem.toList ++ addedIDs s.queue = _
      rw [vadReset_pendingItem]
      rfl
    have hmem : id ∈ s.waiting s.queue := hwait ▸ List.mem_cons_self
    refine ⟨rfl, le_rfl, rfl, rfl, rfl, rfl, ?_, (hs.minted id hmem).ne_empty, hs.free id hmem, ?_⟩
    · rw [hwait, hafter]
      exact List.sublist_cons_self _ _
    · rw [hafter]
      have hnodup := hs.nodup
      rw [hwait] at hnodup
      exact (List.nodup_cons.mp hnodup).1
  · exact newConversationItem_tailed hs

theorem leads_commitItem (hs : s.Sound) : Gives (Leads s always) (s.commitItem env) := by
  unfold commitItem
  dsimp only
  set s₁ : Session F := { s with
    audioBuffer := false, idleAt := 0, idleFired := false
    bufferedMs := GoFloat.ofInt 0, audioWindowStartMs := GoFloat.ofInt 0 } with hs₁
  have h₁ : s.Unmoved s₁ := ⟨rfl, le_rfl, rfl, rfl, rfl, .inl rfl⟩
  have hsound₁ : s₁.Sound := h₁.sound rfl hs
  have htail : s₁.Tailed s₁.adoptItem.2.2
      { s₁.adoptItem.1 with history := s₁.adoptItem.1.history ++ [⟨"user", audioInputPlaceholder⟩] } :=
    (adoptItem_tailed hsound₁).unmoved ⟨rfl, le_rfl, rfl, rfl, rfl, .inl rfl⟩ rfl
  have hstore := htail.store hsound₁
    (if s₁.adoptItem.1.transcriptionEnabled then .text audioInputPlaceholder else .nonString)
    (committedWindow env { s with audioBuffer := false, idleAt := 0, idleFired := false }).2
  generalize storeTurn _ s₁.adoptItem.2.2 _ _ = stored at hstore ⊢
  obtain ⟨hsound, hmem, hid⟩ := hstore
  refine Leads.turn [] _ hs ?_ hmem hid (adoptItem_prev s₁) (by simp) fun e he => ?_
  · refine Unmoved.sound ?_ ?_ hsound
    · exact ⟨rfl, le_rfl, rfl, rfl, rfl, .inl rfl⟩
    · rfl
  · rcases mem_transcriptionEvents env he with ⟨_, _, rfl⟩ | ⟨_, _, _, rfl⟩ <;> rfl

/-! ## Every call -/

theorem leads_updateSession (raw : Raw) (hs : s.Sound) :
    Gives (Leads s always) (s.updateSession env raw) := by
  rcases updateSession_eq env s raw with ⟨e, h⟩ | ⟨_, cfg, obj, h⟩ | ⟨_, cfg, obj, h⟩ <;> rw [h]
  · exact Leads.unmoved hs rfl (by simp [Event.moves])
  · exact Leads.still hs ⟨rfl, le_rfl, rfl, rfl, rfl, .inl rfl⟩ rfl (by simp [Event.moves])
  · have hpending := refreshVAD_pending env { s with cfg := cfg }
    obtain ⟨t, b, heq, -⟩ := refreshVAD_eq env { s with cfg := cfg }
    rw [heq] at hpending ⊢
    exact Leads.still hs ⟨rfl, le_rfl, rfl, rfl, rfl, hpending⟩ rfl (by simp [Event.moves])

/-- The condition on a client event: it takes no waiting id. -/
def Admits (env : Env F) (s : Session F) (ce : ClientEvent) : Prop :=
  ce.type = .itemCreate → ¬ s.TakesWaitingID env ce

omit [GoFloat F] in
theorem Aside.openItemKept (ha : s.Aside s') (ho : s.OpenItemKept) : s'.OpenItemKept := by
  intro inf hinf
  unfold OpenKept
  rw [ha.unmoved.items]
  exact ho inf (ha.inflight ▸ hinf)

omit [GoFloat F] in
theorem leads_start (v : VadState F) (ms : Int)
    (h : Leads { (s.nextID .item).1 with vad := some { v with pendingItemID := (s.nextID .item).2 } }
      s.OpenPrevKnown out s') :
    Leads s s.OpenPrevKnown (.speechStarted ms (s.nextID .item).2 :: out) s' := by
  rw [← List.singleton_append]
  refine Leads.prepend ?_ h
  intro known hk
  refine ⟨fun id hid => .inl (hk id hid), fun hP => ⟨announced_of_silent known (by simp [Event.prev]), ?_⟩⟩
  intro inf hinf prev item hd
  exact (hP inf hinf prev item hd).imp_right fun hk' id hid => .inl (hk' id hid)

/-- Every step keeps the index; one that moves the queue needs the item still streaming. -/
theorem passage_leads :
    Passage env (fun s out s' => s.Sound → Leads s always out s')
      (fun s out s' => s.Sound → s.OpenItemKept → Leads s s.OpenPrevKnown out s') where
  trans h₁ h₂ := fun hs => (h₁ hs).trans h₂
  weaken h := fun hs _ => (h hs).weaken fun _ _ => trivial
  follow h₁ h₂ := fun hs ho => (h₁ hs ho).trans h₂
  aside ha hout := fun hs =>
    Leads.still hs ha.unmoved ha.inflight fun e he => Event.moves_of_isRemark (hout e he)
  before ha h := fun hs ho =>
    ((h (ha.unmoved.sound ha.inflight hs) (ha.openItemKept ho)).from ha.unmoved.items).weaken
      fun _ hk inf hinf => hk inf (ha.inflight ▸ hinf)
  respond _ := leads_createResponse env {}
  start s v ms h := fun hs ho => leads_start v ms (h (hs.announce v) ho)
  commit _ := leads_commitItem env
  turn s ms := fun hs => by
    obtain ⟨hsound, hmem, hid⟩ := (newConversationItem_tailed hs).store hs .nonString []
    have hturn := Leads.turn [.timeoutTriggered ms s.newConversationItem.2.2] [] hs hsound hmem hid rfl
      (by simp [Event.moves]) (by simp)
    rwa [List.append_nil] at hturn
  drain _ now := leads_drainQueue env now
  cancel hinf reason := fun hs ho =>
    (leads_cancelInflight reason (hs.inflight hinf) (ho _ hinf)).1.weaken fun _ hk => hk _ hinf
  truncate _ id := leads_truncateInflightItem id

theorem leads_dispatch (ce : ClientEvent) (hs : s.Sound) (ho : s.OpenItemKept)
    (hce : s.Admits env ce) : Gives (Leads s s.OpenPrevKnown) (s.dispatch env ce) := by
  have P := passage_leads env (F := F)
  refine P.handling.dispatch ?_ ?_ ?_ ?_ ?_ hs ho
  · exact fun _ => leads_updateSession env _
  · intro htype
    refine P.handling.createItem fun s₁ it id after ha hne hnew hid hs₁ =>
      leads_addItem env it after hs₁ hne hnew ?_
    intro hm
    have hm' : id ∈ s.waiting s.queue := by
      have hq : s₁.queue = s.queue := by rw [queue, queue, ha.inflight]
      exact (ha.unmoved.waiting s.queue).subset (hq ▸ hm)
    rcases hid with rfl | hid
    · exact hce htype hm'
    · exact hid (hs.minted id hm')
  · exact fun _ => P.handling.requestResponse (leads_createResponse env ce)
  · exact leads_deleteItem env _
  · exact fun _ => P.cancelResponse s ce

/-- No waiting id is taken and the item still streaming was not evicted. -/
def Careful (env : Env F) (s : Session F) (c : Call) : Prop :=
  s.OpenItemKept ∧ ∀ ce, c = .handle ce → s.Admits env ce

/-- One call keeps the index and announces what the client can retrieve. -/
theorem Sound.call (hs : s.Sound) {c : Call} (hc : s.Careful env c) :
    (s.call env c).1.Sound ∧ (s.OpenPrevKnown (· ∈ s.items) →
      Announced Item.id (· ∈ s.items) ((s.call env c).2.map (·.event))) := by
  have hstamp : ∀ {P : (String → Prop) → Prop} {s' : Session F} {out : Events F},
      Leads s P out s' → (s'.stamp out).1.Sound ∧ (P (· ∈ s.items) →
        Announced Item.id (· ∈ s.items) ((s'.stamp out).2.map (·.event))) := by
    intro P s' out h
    obtain ⟨n, heap, hn, heq⟩ := extends_stamp s' out
    refine ⟨(extends_stamp s' out).unmoved.sound (by rw [heq]) h.sound, fun hP => ?_⟩
    exact stamp_announced s' ((h.known _ fun _ hid => hid).2 hP)
  cases c with
  | greeting => exact hstamp (Leads.unmoved hs rfl (by simp [Event.moves]))
  | handle ce =>
    have hu : s.Unmoved { s with lastClientEventID := ce.eventID } :=
      ⟨rfl, le_rfl, rfl, rfl, rfl, .inl rfl⟩
    exact hstamp ((leads_dispatch env ce (hu.sound rfl hs) hc.1 (hc.2 ce rfl)).from rfl)
  | tick now => exact hstamp ((passage_leads env).advance s now hs hc.1)

theorem Sound.run (calls : List Call) (hs : s.Sound)
    (hc : ∀ pre c post, calls = pre ++ c :: post → (s.run env pre).Careful env c) :
    (s.run env calls).Sound :=
  run_invariant env (fun _ _ hs hc => (hs.call env hc).1) hc hs

end Session

open Session

variable [GoFloat F]

theorem Setup.sound (setup : Setup) : (setup.session env).Sound := by
  have hfresh := setup.fresh env
  have hwait : (setup.session env).waiting [] = [] := by
    rw [waiting, setup.pendingItem env]
    rfl
  refine Guarded.sound_nil ⟨⟨⟨?_, ?_⟩, ?_, ?_, ?_⟩, ?_, ?_, ?_, none, trivial⟩ hfresh.inflight
  · rw [hfresh.itemOrder]
    exact List.nodup_nil
  · rw [hfresh.itemOrder, hfresh.items]
    simp
  · rw [hfresh.lastItemID, hfresh.itemOrder]
    rfl
  · rw [hfresh.items]
    simp
  · rw [hfresh.items]
    exact Nat.zero_le _
  · simp [hwait]
  · simp [hwait]
  · simp [hwait]

section
open Lib

def promptDetection : Raw :=
  Utf8.bytes "\x7b\"type\":\"server_vad\",\"silence_duration_ms\":0,\"create_response\":false\x7d"

def promptPayload : Raw :=
  Utf8.bytes "\x7b\"turn_detection\":" ++ promptDetection ++ Utf8.bytes "\x7d"

def takenItem : Raw := Utf8.bytes "\x7b\"id\":\"item_sess_1_2\"\x7d"

def promptEnv : Env Rat :=
  answering (Utf8.bytes "Hello") (listedDecoders
    [(promptPayload, { SessionUpdate.absent with turnDetection := promptDetection })]
    [(promptDetection, fun base =>
      { base with type := .serverVad, silenceDurationMs := 0, createResponse := some false })]
    [(takenItem, { id := "item_sess_1_2" })])

def promptSession : Session Rat := ({ id := "sess_1" } : Setup).session promptEnv

def takenCalls : List Call :=
  [.handle { type := .sessionUpdate, session := promptPayload },
    .handle { type := .audioAppend, audio := Utf8.bytes "!" },
    .handle { type := .itemCreate, item := takenItem },
    .handle { type := .audioAppend, audio := Utf8.bytes "AAAA" }]

def mintedCalls : List Call :=
  [.handle { type := .sessionUpdate, session := promptPayload },
    .handle { type := .audioAppend, audio := Utf8.bytes "!" },
    .handle { type := .itemCreate },
    .handle { type := .audioAppend, audio := Utf8.bytes "AAAA" }]

end

end MockAgents.Realtime
