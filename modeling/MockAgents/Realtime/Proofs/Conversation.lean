import MockAgents.Realtime.Proofs.Emission
import MockAgents.Realtime.Proofs.Index
/-!
# What the server announces

Ids wait in two places before they join the conversation: the announced id of a
detected turn, and the queue of a paced response.  As long as no other item takes
a waiting id, every handler keeps the index, and a `previous_item_id` names an item
the client already knows.
-/

namespace MockAgents.Realtime

open List

variable {F ι κ : Type}

/-! ## Announcements -/

def Event.prev : Event F ι → Option String
  | .itemAdded prev _ | .itemDone prev _ | .bufferCommitted prev _ => prev
  | _ => none

def Event.added : Event F ι → Option ι
  | .itemAdded _ item => some item
  | _ => none

@[simp] theorem Event.prev_map (f : ι → κ) (ev : Event F ι) : (ev.map f).prev = ev.prev := by
  cases ev <;> rfl

@[simp] theorem Event.added_map (f : ι → κ) (ev : Event F ι) : (ev.map f).added = ev.added.map f := by
  cases ev <;> rfl

/-- Every `previous_item_id` is known or was announced by an earlier event. -/
def Announced (name : ι → String) (known : String → Prop) : List (Event F ι) → Prop
  | [] => True
  | ev :: rest =>
    (∀ id, ev.prev = some id → known id) ∧
      Announced name (fun id => known id ∨ ev.added.map name = some id) rest

def addedIDs (out : List (Event F ItemRef)) : List String := out.filterMap fun ev => ev.added.map (·.id)

@[simp] theorem addedIDs_append (out more : Events F) :
    addedIDs (out ++ more) = addedIDs out ++ addedIDs more := filterMap_append

theorem Announced.mono {name : ι → String} {known known' : String → Prop}
    (h : ∀ id, known id → known' id) {out : List (Event F ι)} (ho : Announced name known out) :
    Announced name known' out := by
  induction out generalizing known known' with
  | nil => trivial
  | cons ev rest ih =>
    refine ⟨fun id hid => h id (ho.1 id hid), ih ?_ ho.2⟩
    intro id hid
    exact hid.imp (h id) fun h' => h'

theorem Announced.append {known : String → Prop} {out more : Events F}
    (ho : Announced (·.id) known out)
    (hm : Announced (·.id) (fun id => known id ∨ id ∈ addedIDs out) more) :
    Announced (·.id) known (out ++ more) := by
  induction out generalizing known with
  | nil => exact hm.mono fun id h => h.elim (fun h' => h') (fun h' => absurd h' (by simp [addedIDs]))
  | cons ev rest ih =>
    refine ⟨ho.1, ih ho.2 (hm.mono ?_)⟩
    intro id h
    rcases h with h | h
    · exact .inl (.inl h)
    · rw [addedIDs, filterMap_cons] at h
      cases hev : ev.added.map (·.id) with
      | none =>
        rw [hev] at h
        exact .inr h
      | some id' =>
        rw [hev] at h
        rcases mem_cons.mp h with rfl | h
        · exact .inl (.inr rfl)
        · exact .inr h

theorem announced_of_silent {name : ι → String} (known : String → Prop) {out : List (Event F ι)}
    (h : ∀ ev ∈ out, ev.prev = none) : Announced name known out := by
  induction out generalizing known with
  | nil => trivial
  | cons ev rest ih =>
    refine ⟨?_, ih _ fun e he => h e (mem_cons_of_mem _ he)⟩
    intro id hid
    rw [h ev mem_cons_self] at hid
    cases hid

theorem addedIDs_of_silent {out : Events F} (h : ∀ ev ∈ out, ev.added = none) :
    addedIDs out = [] := by
  rw [addedIDs, filterMap_eq_nil_iff]
  intro ev hev
  rw [h ev hev]
  rfl

/-! ## The queue of a paced response -/

/-- The item a queue closes out before it opens another: announced, still streaming. -/
def openItem : List (Event F ItemRef) → Option (Option String × ItemRef)
  | [] => none
  | .itemAdded .. :: _ => none
  | .itemDone prev item :: _ => some (prev, item)
  | _ :: rest => openItem rest

/-- Items are closed out in turn: the open one first, then each one right after it
was opened.  A queue commits no buffer. -/
def Laddered : Option String → List (Event F ItemRef) → Prop
  | _, [] => True
  | open_, ev :: rest =>
    match ev, open_ with
    | .itemAdded _ item, none => Laddered (some item.id) rest
    | .itemAdded .., some _ => False
    | .itemDone _ item, some id => item.id = id ∧ Laddered none rest
    | .itemDone .., none => False
    | .bufferCommitted .., _ => False
    | _, open_ => Laddered open_ rest

def Event.moves : Event F ι → Bool
  | .itemAdded .. | .itemDone .. | .bufferCommitted .. => true
  | _ => false

theorem Event.added_of_not_moves {ev : Event F ι} (h : ev.moves = false) : ev.added = none := by
  cases ev <;> first
    | rfl
    | exact absurd h (by simp [Event.moves])

theorem Event.prev_of_not_moves {ev : Event F ι} (h : ev.moves = false) : ev.prev = none := by
  cases ev <;> first
    | rfl
    | exact absurd h (by simp [Event.moves])

theorem openItem_cons {ev : Event F ItemRef} (h : ev.moves = false) (rest : Events F) :
    openItem (ev :: rest) = openItem rest := by
  cases ev <;> first
    | rfl
    | exact absurd h (by simp [Event.moves])

theorem laddered_cons {ev : Event F ItemRef} (h : ev.moves = false) (open_ : Option String)
    (rest : Events F) : Laddered open_ (ev :: rest) ↔ Laddered open_ rest := by
  cases ev <;> first
    | (cases open_ <;> exact Iff.rfl)
    | exact absurd h (by simp [Event.moves])

theorem addedIDs_cons {ev : Event F ItemRef} (h : ev.moves = false) (rest : Events F) :
    addedIDs (ev :: rest) = addedIDs rest := by
  rw [addedIDs, filterMap_cons, Event.added_of_not_moves h]
  rfl

theorem Laddered.closed {queue : Events F} (h : Laddered none queue) (prev : Option String)
    (item : ItemRef) : openItem queue ≠ some (prev, item) := by
  induction queue with
  | nil => nofun
  | cons ev rest ih =>
    by_cases hm : ev.moves = true
    · cases ev with
      | itemAdded => nofun
      | itemDone => exact absurd h (by simp [Laddered])
      | bufferCommitted => exact absurd h (by simp [Laddered])
      | _ => exact absurd hm (by simp [Event.moves])
    · have hm : ev.moves = false := by simpa using hm
      rw [openItem_cons hm]
      exact ih ((laddered_cons hm none rest).mp h)

theorem Laddered.done {open_ prev : Option String} {item : ItemRef} {rest : Events F}
    (h : Laddered open_ (.itemDone prev item :: rest)) : Laddered none rest := by
  cases open_ with
  | none => exact absurd h (by simp [Laddered])
  | some id => exact h.2

theorem Laddered.openItem_id {id : String} {queue : Events F}
    (h : Laddered (some id) queue) {prev : Option String} {item : ItemRef}
    (ho : openItem queue = some (prev, item)) : item.id = id := by
  induction queue with
  | nil => exact absurd ho (by simp [openItem])
  | cons ev rest ih =>
    by_cases hm : ev.moves = true
    · cases ev with
      | itemAdded => exact absurd h (by simp [Laddered])
      | itemDone prev' item' =>
        obtain ⟨rfl, rfl⟩ : prev' = prev ∧ item' = item := by simpa [openItem] using ho
        exact h.1
      | bufferCommitted => exact absurd h (by simp [Laddered])
      | _ => exact absurd hm (by simp [Event.moves])
    · have hm : ev.moves = false := by simpa using hm
      rw [openItem_cons hm] at ho
      exact ih ((laddered_cons hm _ rest).mp h) ho

namespace Session

/-! ## Waiting ids -/

def waiting (s : Session F) (queue : List (Event F ItemRef)) : List String :=
  s.pendingItem.toList ++ addedIDs queue

/-- The index is kept, the waiting ids are minted ones that are no items yet, and
the queue closes out its items in turn. -/
structure Guarded (s : Session F) (queue : List (Event F ItemRef)) : Prop where
  index : s.Indexed
  minted : ∀ id ∈ s.waiting queue, s.Minted id
  free : ∀ id ∈ s.waiting queue, id ∉ s.items
  nodup : (s.waiting queue).Nodup
  ladder : ∃ open_, Laddered open_ queue

def queue (s : Session F) : List (Event F ItemRef) :=
  match s.inflight with
  | none => []
  | some inf => inf.queue

def Sound (s : Session F) : Prop := s.Guarded s.queue

variable {s s' : Session F} {queue : Events F}

theorem Sound.guarded_nil (h : s.Sound) (hfree : s.inflight = none) : s.Guarded [] := by
  rwa [Sound, queue, hfree] at h

theorem Guarded.sound_nil (h : s.Guarded []) (hfree : s.inflight = none) : s.Sound := by
  rwa [Sound, queue, hfree]

theorem Minted.ne_empty {id : String} (h : s.Minted id) : id ≠ "" := by
  obtain ⟨k, n, _, rfl⟩ := h
  exact mintID_ne_empty k s.id n

theorem Guarded.shrink {queue queue' : Events F} (h : s.Guarded queue)
    (hindex : s'.Indexed) (hid : s'.id = s.id) (hc : s.counter ≤ s'.counter)
    (hsub : (s'.waiting queue').Sublist (s.waiting queue))
    (hfree : ∀ id ∈ s'.waiting queue', id ∉ s'.items) (hladder : ∃ open_, Laddered open_ queue') :
    s'.Guarded queue' :=
  ⟨hindex, fun id hm => (h.minted id (hsub.subset hm)).mono hid hc, hfree, h.nodup.sublist hsub,
    hladder⟩

theorem Guarded.nil (h : s.Guarded queue) : s.Guarded [] := by
  have hsub : (s.waiting []).Sublist (s.waiting queue) :=
    Sublist.append_left (nil_sublist _) _
  exact h.shrink h.index rfl le_rfl hsub (fun id hid => h.free id (hsub.subset hid)) ⟨none, trivial⟩

/-- The step moved no item and let no id wait anew. -/
structure Unmoved (s s' : Session F) : Prop where
  id : s'.id = s.id
  counter : s.counter ≤ s'.counter
  items : s'.items = s.items
  itemOrder : s'.itemOrder = s.itemOrder
  lastItemID : s'.lastItemID = s.lastItemID
  pending : s'.pendingItem = s.pendingItem ∨ s'.pendingItem = none

theorem Unmoved.trans {s₁ s₂ s₃ : Session F} (h₁ : s₁.Unmoved s₂) (h₂ : s₂.Unmoved s₃) :
    s₁.Unmoved s₃ := by
  refine ⟨h₂.id.trans h₁.id, h₁.counter.trans h₂.counter, h₂.items.trans h₁.items,
    h₂.itemOrder.trans h₁.itemOrder, h₂.lastItemID.trans h₁.lastItemID, ?_⟩
  rcases h₂.pending with h | h
  · rw [h]
    exact h₁.pending
  · exact .inr h

theorem Unmoved.waiting (h : s.Unmoved s') (queue : Events F) :
    (s'.waiting queue).Sublist (s.waiting queue) := by
  unfold Session.waiting
  rcases h.pending with hp | hp
  · rw [hp]
  · rw [hp]
    exact sublist_append_right _ _

theorem Unmoved.guarded (h : s.Unmoved s') (hs : s.Guarded queue) : s'.Guarded queue := by
  have hsub := h.waiting queue
  refine hs.shrink (hs.index.congr h.items h.itemOrder h.lastItemID) h.id h.counter hsub ?_ hs.ladder
  intro id hm
  rw [h.items]
  exact hs.free id (hsub.subset hm)

theorem Extends.unmoved (h : s.Extends s') : s.Unmoved s' := by
  obtain ⟨n, hp, hn, rfl⟩ := h
  exact ⟨rfl, hn, rfl, rfl, rfl, .inl rfl⟩

theorem Unmoved.sound (h : s.Unmoved s') (hq : s'.inflight = s.inflight) (hs : s.Sound) :
    s'.Sound := by
  have := h.guarded hs
  rwa [Sound, Session.queue, hq]

/-! ## Emission -/

/-- The item still streaming is an item or was deleted. -/
def OpenKept (s : Session F) (inf : Inflight F) (queue : List (Event F ItemRef)) : Prop :=
  ∀ prev item, openItem queue = some (prev, item) → inf.deleted item.id = true ∨ item.id ∈ s.items

/-- The predecessor announced for it is known. -/
def PrevKnown (inf : Inflight F) (queue : List (Event F ItemRef)) (known : String → Prop) : Prop :=
  ∀ prev item, openItem queue = some (prev, item) → inf.deleted item.id = true ∨
    ∀ id, (inf.chainPrev item.id).getD prev = some id → known id

/-- What the emission of a queued event and its close-out have in common. -/
inductive Emits (s : Session F) (inf : Inflight F) :
    Event F ItemRef → Session F → Inflight F → List (Event F ItemRef) → Prop
  | added (prev : Option String) (item : ItemRef) :
      Emits s inf (.itemAdded prev item) (s.joinEmittedItem item) (s.rewriteChainPrev inf item)
        [.itemAdded s.previousItemID item]
  | suppressed (prev : Option String) (item : ItemRef) (h : inf.deleted item.id = true) :
      Emits s inf (.itemDone prev item) s inf []
  | done (prev : Option String) (item : ItemRef) (h : inf.deleted item.id = false) :
      Emits s inf (.itemDone prev item) (s.rememberItem item) inf
        [.itemDone ((inf.chainPrev item.id).getD prev) item]
  | other {ev : Event F ItemRef} {s' : Session F} {inf' : Inflight F} {out : List (Event F ItemRef)}
      (hev : ev.moves = false) (hs : s.Unmoved s') (hflight : s'.inflight = s.inflight) (hd : inf'.deleted = inf.deleted)
      (hp : inf'.chainPrev = inf.chainPrev) (hout : ∀ e ∈ out, e.moves = false) :
      Emits s inf ev s' inf' out

theorem Emits.inflight {inf inf' : Inflight F} {ev : Event F ItemRef} {out : Events F}
    (h : Emits s inf ev s' inf' out) : s'.inflight = s.inflight := by
  cases h with
  | added prev item =>
    obtain ⟨items, order, last, history, heq⟩ := s.reindexed_joinEmittedItem item
    rw [heq]
  | suppressed => rfl
  | done prev item =>
    obtain ⟨items, order, last, history, heq⟩ := s.reindexed_rememberItem item
    rw [heq]
  | other _ _ hflight => exact hflight

/-- A step of the queue keeps the index; it makes known what it announces and, if
the predecessor of the open item was known, announces what is known. -/
theorem Emits.guarded {inf inf' : Inflight F} {ev : Event F ItemRef}
    {rest out : Events F} (h : Emits s inf ev s' inf' out)
    (hs : s.Guarded (ev :: rest)) (ho : s.OpenKept inf (ev :: rest)) :
    s'.Guarded rest ∧ s'.OpenKept inf' rest ∧
      ∀ known : String → Prop, (∀ id ∈ s.items, known id) →
        (∀ id ∈ s'.items, known id ∨ id ∈ addedIDs out) ∧
        (PrevKnown inf (ev :: rest) known → Announced (·.id) known out ∧
          PrevKnown inf' rest fun id => known id ∨ id ∈ addedIDs out) := by
  obtain ⟨open_, hl⟩ := hs.ladder
  cases h with
  | added prev item =>
    have hw : s.waiting (.itemAdded prev item :: rest) =
        s.pendingItem.toList ++ item.id :: addedIDs rest := rfl
    have hmem : item.id ∈ s.waiting (.itemAdded prev item :: rest) := by simp [hw]
    have hne : item.id ≠ "" := (hs.minted _ hmem).ne_empty
    have hnew : item.id ∉ s.items := hs.free _ hmem
    obtain ⟨hidx, hsub⟩ := hs.index.tail hne hnew
    rw [← joinEmittedItem_eq hs.index hne] at hidx hsub
    obtain ⟨items, order, last, history, heq⟩ := s.reindexed_joinEmittedItem item
    have hwait : (s.joinEmittedItem item).waiting rest = s.waiting rest := by
      rw [heq]
      rfl
    have hnodup := hs.nodup
    rw [hw, nodup_middle] at hnodup
    have hladder : Laddered (some item.id) rest := by
      cases open_ with
      | none => exact hl
      | some id => exact absurd hl (by simp [Laddered])
    refine ⟨hs.shrink hidx (by rw [heq]) (by rw [heq]) ?_ ?_ ⟨_, hladder⟩, ?_, ?_⟩
    · rw [hwait]
      exact Sublist.append_left (sublist_cons_self _ _) _
    · intro id hid hm
      rw [hwait] at hid
      rcases hsub id hm with rfl | hm
      · exact (nodup_cons.mp hnodup).1 hid
      · refine hs.free id ?_ hm
        rw [hw]
        rcases mem_append.mp hid with h | h
        · exact mem_append_left _ h
        · exact mem_append_right _ (mem_cons_of_mem _ h)
    · intro prev' item' hopen
      rw [hladder.openItem_id hopen]
      exact .inr (hs.index.mem_join hne hnew)
    · intro known hk
      refine ⟨?_, fun _ => ⟨⟨?_, trivial⟩, ?_⟩⟩
      · intro id hm
        rcases hsub id hm with rfl | hm
        · exact .inr mem_cons_self
        · exact .inl (hk id hm)
      · intro id hid
        exact hk id (hs.index.previous hid)
      · intro prev' item' hopen
        refine .inr fun id hid => .inl (hk id (hs.index.previous ?_))
        rw [hladder.openItem_id hopen, rewriteChainPrev, if_neg hne] at hid
        simpa using hid
  | suppressed prev item hdel =>
    have hladder := hl.done
    refine ⟨⟨hs.index, hs.minted, hs.free, hs.nodup, _, hladder⟩, ?_, ?_⟩
    · exact fun p i hopen => absurd hopen (hladder.closed p i)
    · intro known hk
      exact ⟨fun id hm => .inl (hk id hm), fun _ => ⟨trivial, fun p i hopen =>
        absurd hopen (hladder.closed p i)⟩⟩
  | done prev item hdel =>
    have hladder := hl.done
    have hmem : item.id ∈ s.items := by
      rcases ho prev item rfl with h | h
      · rw [hdel] at h
        cases h
      · exact h
    obtain ⟨hidx, hiff⟩ := hs.index.remember hmem
    obtain ⟨items, order, last, history, heq⟩ := s.reindexed_rememberItem item
    have hwait : (s.rememberItem item).waiting rest = s.waiting rest := by
      rw [heq]
      rfl
    refine ⟨hs.shrink hidx (by rw [heq]) (by rw [heq]) ?_ ?_ ⟨_, hladder⟩, ?_, ?_⟩
    · rw [hwait]
      exact Sublist.refl _
    · intro id hid hm
      rw [hwait] at hid
      exact hs.free id hid ((hiff id).mp hm)
    · exact fun p i hopen => absurd hopen (hladder.closed p i)
    · intro known hk
      refine ⟨fun id hm => .inl (hk id ((hiff id).mp hm)), fun hknown => ⟨⟨?_, trivial⟩, ?_⟩⟩
      · intro id hid
        rcases hknown prev item rfl with h | h
        · rw [hdel] at h
          cases h
        · exact h id hid
      · exact fun p i hopen => absurd hopen (hladder.closed p i)
  | other hev hunmoved _ hd hp hout =>
    have hwait : s.waiting (ev :: rest) = s.waiting rest := by
      rw [waiting, addedIDs_cons hev]
      rfl
    have hrest : s.Guarded rest :=
      ⟨hs.index, hwait ▸ hs.minted, hwait ▸ hs.free, hwait ▸ hs.nodup, open_,
        (laddered_cons hev open_ rest).mp hl⟩
    refine ⟨hunmoved.guarded hrest, ?_, ?_⟩
    · intro prev item hopen
      rw [hd, hunmoved.items]
      exact ho prev item ((openItem_cons hev rest).trans hopen)
    · intro known hk
      rw [hunmoved.items]
      refine ⟨fun id hm => .inl (hk id hm), fun hknown => ⟨?_, ?_⟩⟩
      · exact announced_of_silent known fun e he => Event.prev_of_not_moves (hout e he)
      · intro prev item hopen
        rw [hd, hp]
        exact (hknown prev item ((openItem_cons hev rest).trans hopen)).imp_right
          fun h id hid => .inl (h id hid)

end Session

end MockAgents.Realtime
