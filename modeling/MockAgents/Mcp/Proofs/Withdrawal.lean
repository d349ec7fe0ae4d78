import MockAgents.Mcp.Proofs.Routing
/-!
# Withdrawn requests

A `SendRequest` whose context ends takes its request off the queue.  A pump may hold the
request at that moment; only when it puts the request back can a later subscriber receive it.
An id is minted once, so the queue has at most one request to take off.
-/

namespace MockAgents.Mcp

open Lib List Option OutboundMessage Goroutine Pool

/-! ## Where a request is -/

def OutboundMessage.asksID (m : OutboundMessage) : Option Bytes :=
  if m.kind = .request then m.request.map (·.id) else none
variable {id : Bytes}

theorem OutboundMessage.asks_iff {m : OutboundMessage} : m.asks id = true ↔ m.asksID = some id := by
  unfold asks asksID
  by_cases hkind : m.kind = .request
  · cases hrequest : m.request <;> simp [hkind]
  · simp [hkind]

theorem idOf_inj {j k : Nat} (h : idOf j = idOf k) : j = k := by
  have htext : (toString j).toList = (toString k).toList := Utf8.encode_injective h
  exact Nat.repr_inj.mp (String.toList_injective htext)

def Rpc.minted (s : Rpc) : List Bytes := (List.range s.nextID).map fun k => idOf (k + 1)

theorem nodup_minted (s : Rpc) : s.minted.Nodup :=
  nodup_range.map fun _ _ h => Nat.succ.inj (idOf_inj h)

theorem count_minted_le (s : Rpc) (id : Bytes) : s.minted.count id ≤ 1 :=
  nodup_iff_count_le_one.mp (nodup_minted s) id

theorem minted_succ (s : Rpc) :
    ({ s with nextID := s.nextID + 1 } : Rpc).minted = s.minted ++ [idOf (s.nextID + 1)] := by
  simp [Rpc.minted, range_succ]

def Goroutine.fresh : Goroutine → Option Bytes
  | .register req | .enqueue req _ => some req.id
  | .queue (.enqueue msg) => msg.asksID
  | _ => none

def Goroutine.owns : Goroutine → Option Bytes
  | .signal req _ _ | .await req _ | .withdraw req | .cleanup req _ | .answered req _ => some req.id
  | g => g.fresh

def Goroutine.holding : Goroutine → Option (Nat × Entry)
  | .queue (.pump sub (.send e)) | .queue (.pump sub (.back e)) => some (sub, e)
  | _ => none

def Goroutine.carries : Goroutine → Option Bytes
  | .queue (.pump _ (.send e)) | .queue (.pump _ (.back e)) => e.msg.asksID
  | g => g.fresh

section Queue
variable (s : Shared)

def Shared.asked : List Bytes := s.bi.outbound.filterMap (·.msg.asksID)

theorem count_asked_append (msg : OutboundMessage) (id : Bytes) :
    (s.append msg).asked.count id ≤ s.asked.count id + msg.asksID.toList.count id := by
  have hsub := (drop_sublist s.excess (s.bi.outbound ++ [s.entry msg])).filterMap (·.msg.asksID)
  have hone : [s.entry msg].filterMap (·.msg.asksID) = msg.asksID.toList := by
    cases hasks : msg.asksID <;> simp [Shared.entry, hasks]
  have hle := hsub.count_le id
  rw [filterMap_append, count_append] at hle
  simp only [Shared.asked, Shared.append]
  exact hle

theorem count_asked_cons (e : Entry) (rest : List Entry) (id : Bytes) :
    ((e :: rest).filterMap (·.msg.asksID)).count id =
      e.msg.asksID.toList.count id + (rest.filterMap (·.msg.asksID)).count id := by
  cases hasks : e.msg.asksID with
  | none => simp [hasks]
  | some other =>
    simp only [filterMap_cons, hasks, toList_some, count_cons, count_nil]
    omega

theorem asked_dropRequest (id : Bytes) : (s.dropRequest id).asked.Sublist s.asked :=
  eraseP_sublist.filterMap _

end Queue

variable {s : Shared} {t t' : Task}

theorem step_of_next {ready : Ready} {q : Shared} (next : t.next ready s = (q, t')) : Step s t q t' := by
  have hstep := t.next_spec ready s
  rwa [next] at hstep

/-- An id is on its way into the queue, in it or with a pump; only minting adds one. -/
theorem Step.count_carries {s' : Shared} (h : Step s t s' t') (id : Bytes) :
    (Goroutine.queue t').carries.toList.count id + s'.asked.count id ≤
      (Goroutine.queue t).carries.toList.count id + s.asked.count id := by
  cases h with
  | attach => simp [Goroutine.carries, Goroutine.fresh, Shared.asked, Bidirectional.attach]
  | exit sub pc idle => rcases idle with rfl | rfl | rfl <;> exact le_rfl
  | take sub e rest live queue =>
    simp only [Goroutine.carries, Goroutine.fresh, Shared.asked, queue, count_asked_cons,
      toList_none, count_nil]
    omega
  | deliver sub e => simp [Goroutine.carries, Goroutine.fresh, Shared.asked, Shared.receive]
  | putBack sub e =>
    simp only [Goroutine.carries, Goroutine.fresh, Shared.asked, Shared.putBack, count_asked_cons,
      toList_none, count_nil]
    omega
  | detach sub =>
    rcases s.bi.detach_eq sub with heq | heq <;>
      simp [Goroutine.carries, Goroutine.fresh, Shared.asked, heq]
  | append msg =>
    have hle := count_asked_append s msg id
    simp only [Goroutine.carries, Goroutine.fresh, toList_none, count_nil]
    omega
  | drop other => simpa [Goroutine.carries, Goroutine.fresh] using (asked_dropRequest s other).count_le id
  | _ => exact le_rfl

theorem Step.count_owns {s' : Shared} (h : Step s t s' t') (id : Bytes) :
    (Goroutine.queue t').owns.toList.count id ≤ (Goroutine.queue t).owns.toList.count id := by
  cases h with
  | append => exact Nat.zero_le _
  | _ => exact le_rfl
variable {s' : Rpc} {g g' : Goroutine}

theorem Move.count_carries {s : Rpc} (h : Move s g s' g') (id : Bytes) :
    g'.carries.toList.count id + s'.queue.asked.count id + s.minted.count id ≤
      g.carries.toList.count id + s.queue.asked.count id + s'.minted.count id := by
  cases h with
  | queue ready t q t' next =>
    exact Nat.add_le_add_right ((step_of_next next).count_carries id) _
  | mint | fail =>
    rw [minted_succ, count_append]
    simp only [Goroutine.carries, Goroutine.fresh, toList_some, toList_none, count_nil]
    omega
  | enqueue req ch =>
    have hle := count_asked_append s.queue (.ofRequest req) id
    have hid : (ofRequest req).asksID = some req.id := rfl
    rw [hid] at hle
    simp only [Goroutine.carries, Goroutine.fresh, Rpc.minted, toList_none, count_nil]
    omega
  | withdraw req =>
    have hle := (asked_dropRequest s.queue req.id).count_le id
    simp only [Goroutine.carries, Goroutine.fresh, Rpc.minted]
    omega
  | _ => exact le_rfl

theorem Move.count_owns {s : Rpc} (h : Move s g s' g') (id : Bytes) :
    g'.owns.toList.count id + s.minted.count id ≤ g.owns.toList.count id + s'.minted.count id := by
  cases h with
  | queue ready t q t' next =>
    exact Nat.add_le_add_right ((step_of_next next).count_owns id) _
  | mint | fail =>
    rw [minted_succ, count_append]
    simp only [owns, Goroutine.fresh, toList_some, toList_none, count_nil]
    omega
  | enqueue req ch => simp only [owns, Goroutine.fresh, Rpc.minted, le_refl]
  | _ => exact le_rfl

/-- Every request under an id is in one place at most, and every id has one `SendRequest`. -/
structure MintedOnce (w : Pool Rpc Goroutine) : Prop where
  carried : ∀ id, (w.gather Goroutine.carries).count id + w.shared.queue.asked.count id ≤
    w.shared.minted.count id
  owned : ∀ id, (w.gather Goroutine.owns).count id ≤ w.shared.minted.count id
variable {w : Pool Rpc Goroutine}

theorem MintedOnce.start (h : MintedOnce w) (call : RpcCall) :
    MintedOnce (rpc.act w (.start call)) := by
  have hcarries : (rpc.start call).carries = none := by cases call <;> rfl
  have howns : (rpc.start call).owns = none := by cases call <;> rfl
  refine ⟨fun id => ?_, fun id => ?_⟩
  · rw [gather_start, hcarries, toList_none, append_nil]
    exact h.carried id
  · rw [gather_start, howns, toList_none, append_nil]
    exact h.owned id

theorem MintedOnce.step (h : MintedOnce w) {i : Nat}
    (hi : w.calls[i]? = some g) (hmove : Move w.shared g s' g') :
    MintedOnce ⟨s', w.calls.set i g'⟩ where
  carried id := by
    have hheld := count_gather_set Goroutine.carries hi s' g' id
    have hmoved := hmove.count_carries id
    have hbefore := h.carried id
    dsimp only
    omega
  owned id := by
    have hheld := count_gather_set owns hi s' g' id
    have hmoved := hmove.count_owns id
    have hbefore := h.owned id
    dsimp only
    omega

theorem MintedOnce.asked_le (h : MintedOnce w) (id : Bytes) : w.shared.queue.asked.count id ≤ 1 := by
  have hcarried := h.carried id
  have hone := count_minted_le w.shared id
  omega

/-! ## What a withdrawal leaves behind -/

theorem count_eraseP_asks {l : List Entry} (h : (l.filterMap (·.msg.asksID)).count id ≤ 1) :
    ((l.eraseP (·.msg.asks id)).filterMap (·.msg.asksID)).count id = 0 := by
  induction l with
  | nil => rfl
  | cons e l ih =>
    rw [count_asked_cons] at h
    by_cases hasks : e.msg.asks id = true
    · rw [asks_iff.mp hasks] at h
      rw [eraseP_cons_of_pos (p := fun x : Entry => x.msg.asks id) hasks]
      simpa using h
    · have hne : e.msg.asksID.toList.count id = 0 := by
        rw [asks_iff] at hasks
        simpa [count_eq_zero] using hasks
      rw [eraseP_cons_of_neg (p := fun x : Entry => x.msg.asks id) hasks, count_asked_cons, hne,
        ih (by omega)]

/-- What the past and the queue say of the requests that were withdrawn. -/
structure Rpc.Clear (s : Rpc) : Prop where
  /-- who received something was attached -/
  inbox : ∀ y ∈ s.log.received, y.1 < s.subs
  made : ∀ x ∈ s.log.withdrawn, x.2 ≤ s.subs
  known : ∀ x ∈ s.log.withdrawn, x.1 ∈ s.minted
  queue : ∀ x ∈ s.log.withdrawn, x.1 ∉ s.queue.asked
  got : ∀ x ∈ s.log.withdrawn, ∀ y ∈ s.log.received, y.2.msg.asksID = some x.1 → y.1 < x.2
  abandoned : ∀ x ∈ s.log.abandoned, ∃ y ∈ s.log.withdrawn, y.1 = x.1 ∧ y.2 ≤ x.2

/-- What a goroutine has to do with them: only a pump of an earlier subscription still holds
one. -/
structure Goroutine.Clear (s : Rpc) (g : Goroutine) : Prop where
  serving : ∀ t sub, g = .queue t → t.serves = some sub → sub < s.subs
  holding : ∀ x ∈ s.log.withdrawn, ∀ y, g.holding = some y → y.2.msg.asksID = some x.1 → y.1 < x.2
  fresh : ∀ x ∈ s.log.withdrawn, g.fresh ≠ some x.1
  ended : ∀ req, g = .cleanup req .contextEnded → ∃ x ∈ s.log.withdrawn, x.1 = req.id

section Moves
variable {s s' : Rpc} {g g' : Goroutine}
variable {y : Nat × Entry} {t t' : Task} {id : Bytes}

theorem Move.subs_le (h : Move s g s' g') : s.subs ≤ s'.subs := by
  cases h with
  | queue ready t q t' next =>
    exact (step_of_next next).length_subs
  | enqueue => simp [Rpc.subs]
  | signal => simp [Rpc.subs, Bidirectional.wakeUp]
  | _ => exact le_rfl

theorem Move.withdrawn (h : Move s g s' g') :
    s'.log.withdrawn = s.log.withdrawn ∨
      ∃ req, g = .withdraw req ∧ s'.log.withdrawn = s.log.withdrawn ++ [(req.id, s.subs)] := by
  cases h with
  | withdraw req => exact .inr ⟨req, rfl, rfl⟩
  | _ => exact .inl rfl

theorem Move.minted_subset (h : Move s g s' g') : s.minted ⊆ s'.minted := by
  cases h with
  | mint | fail =>
    rw [minted_succ]
    exact subset_append_left _ _
  | enqueue => simp [Rpc.minted]
  | _ => exact Subset.refl _

theorem Goroutine.Clear.serves (h : g.Clear s) (hy : g.holding = some y) : y.1 < s.subs := by
  unfold Goroutine.holding at hy
  split at hy
  · cases hy
    exact h.serving _ _ rfl rfl
  · cases hy
    exact h.serving _ _ rfl rfl
  · cases hy

theorem Goroutine.Clear.move (h : Move s g s' g') {other : Goroutine} (hother : other.Clear s)
    (hne : ∀ req, g = .withdraw req → other.fresh ≠ some req.id) : other.Clear s' := by
  have hsubs := h.subs_le
  refine ⟨fun t sub ht hsub => (hother.serving t sub ht hsub).trans_le hsubs, ?_, ?_, ?_⟩ <;>
    rcases h.withdrawn with hsame | ⟨req, hg, hmore⟩
  · rw [hsame]
    exact hother.holding
  · -- a request held while it is withdrawn is held for a subscription made before
    rw [hmore, forall_mem_append, forall_mem_singleton]
    exact ⟨hother.holding, fun y hy _ => hother.serves hy⟩
  · rw [hsame]
    exact hother.fresh
  · rw [hmore, forall_mem_append, forall_mem_singleton]
    exact ⟨hother.fresh, hne req hg⟩
  · rw [hsame]
    exact hother.ended
  · intro req' hcleanup
    obtain ⟨x, hx, hid⟩ := hother.ended req' hcleanup
    exact ⟨x, by rw [hmore]; exact mem_append_left _ hx, hid⟩

/-- What the queue asks after a step it asked before, or it was enqueued or put back. -/
theorem Step.mem_asked {s s' : Shared} (h : Step s t s' t') (hid : id ∈ s'.asked) :
    id ∈ s.asked ∨ (Goroutine.queue t).fresh = some id ∨
      ∃ sub e, t = .pump sub (.back e) ∧ e.msg.asksID = some id := by
  have hcount := count_pos_iff.mpr hid
  cases h with
  | attach => exact .inl (by simpa [Shared.asked, Bidirectional.attach] using hid)
  | take sub e rest live queue =>
    refine .inl (count_pos_iff.mp ?_)
    rw [Shared.asked, queue, count_asked_cons]
    exact Nat.add_pos_right _ hcount
  | putBack sub e =>
    have hsplit : id ∈ (e :: s.bi.outbound).filterMap (·.msg.asksID) := hid
    obtain ⟨e', he', hasks⟩ := mem_filterMap.mp hsplit
    rcases mem_cons.mp he' with rfl | hold
    · exact .inr (.inr ⟨sub, e', rfl, hasks⟩)
    · exact .inl (mem_filterMap.mpr ⟨e', hold, hasks⟩)
  | detach sub =>
    rcases s.bi.detach_eq sub with heq | heq <;> exact .inl (by simpa [Shared.asked, heq] using hid)
  | append msg =>
    have hle := count_asked_append s msg id
    rcases Nat.add_pos_iff_pos_or_pos.mp (hcount.trans_le hle) with hold | hnew
    · exact .inl (count_pos_iff.mp hold)
    · exact .inr (.inl (mem_toList.mp (count_pos_iff.mp hnew)))
  | drop other => exact .inl ((asked_dropRequest s other).subset hid)
  | _ => exact .inl hid

/-- A pump holds what it held, or the first message of the queue. -/
theorem Step.holding {s s' : Shared} (h : Step s t s' t')
    (hy : (Goroutine.queue t').holding = some y) :
    (Goroutine.queue t).holding = some y ∨ y.2 ∈ s.bi.outbound := by
  cases h with
  | stay | abandon => exact .inl hy
  | take sub e rest live queue =>
    cases hy
    exact .inr (by rw [queue]; exact mem_cons_self)
  | _ => cases hy

theorem Step.fresh {s s' : Shared} (h : Step s t s' t')
    (hid : (Goroutine.queue t').fresh = some id) : (Goroutine.queue t).fresh = some id := by
  cases h with
  | stay => exact hid
  | _ => cases hid

theorem Goroutine.Clear.moved (h : Move s g s' g') (hs : s.Clear) (hg : g.Clear s) : g'.Clear s' where
  serving := by
    intro t' sub ht' hsub
    have hle := h.subs_le
    cases h with
    | stay => exact hg.serving t' sub ht' hsub
    | queue ready t q t'' next =>
      cases ht'
      rcases (step_of_next next).serves with hsame | ⟨-, hnew, hlt⟩
      · exact (hg.serving t sub rfl (hsame ▸ hsub)).trans_le hle
      · obtain rfl : s.queue.bi.subs.length = sub := some.inj (hnew.symm.trans hsub)
        exact hlt
    | _ => cases ht'
  holding := by
    intro x hx y hy hasks
    cases h with
    | stay => exact hg.holding x hx y hy hasks
    | queue ready t q t' next =>
      rcases (step_of_next next).holding hy with hold | hqueue
      · exact hg.holding x hx y hold hasks
      · -- the queue has no withdrawn request to hand out
        exact absurd (mem_filterMap.mpr ⟨y.2, hqueue, hasks⟩) (hs.queue x hx)
    | _ => cases hy
  fresh := by
    intro x hx
    cases h with
    | stay => exact hg.fresh x hx
    | queue ready t q t' next =>
      exact fun hfresh => hg.fresh x hx ((step_of_next next).fresh hfresh)
    | mint method params raw =>
      intro hnew
      have hnodup := nodup_minted { s with nextID := s.nextID + 1 }
      rw [minted_succ] at hnodup
      have hid : idOf (s.nextID + 1) = x.1 := some.inj hnew
      exact disjoint_of_nodup_append hnodup (hs.known x hx) (mem_singleton.mpr hid.symm)
    | register req => exact hg.fresh x hx
    | _ => exact nofun
  ended := by
    intro req hcleanup
    cases h with
    | stay => exact hg.ended req hcleanup
    | withdraw req' =>
      cases hcleanup
      exact ⟨(req.id, s.subs), by simp, rfl⟩
    | _ => cases hcleanup

/-- The shared state, in a step that puts no withdrawn request back. -/
theorem Rpc.Clear.move (h : Move s g s' g') (hs : s.Clear) (hg : g.Clear s)
    (hcount : ∀ id, s.queue.asked.count id ≤ 1) (howner : ∀ id, g.owns = some id → id ∈ s.minted)
    (hback : ∀ sub e, g = .queue (.pump sub (.back e)) → ∀ x ∈ s.log.withdrawn,
      e.msg.asksID ≠ some x.1) : s'.Clear := by
  have hsubs := h.subs_le
  have hminted := h.minted_subset
  have hknown : ∀ x ∈ s.log.withdrawn, x.1 ∈ s'.minted := fun x hx => hminted (hs.known x hx)
  have hmade : ∀ x ∈ s.log.withdrawn, x.2 ≤ s'.subs := fun x hx => (hs.made x hx).trans hsubs
  have hinbox : ∀ y ∈ s.log.received, y.1 < s'.subs := fun y hy => (hs.inbox y hy).trans_le hsubs
  cases h with
  | queue ready t q t' next =>
    have hstep := step_of_next next
    -- what is received now was in the pump's hand
    have hnew : ∀ y ∈ (t.receives ready).toList, (Goroutine.queue t).holding = some y := by
      intro y hy
      unfold Task.receives at hy
      split at hy
      · split at hy
        · exact congrArg some (mem_singleton.mp hy).symm
        · cases hy
      · cases hy
    refine ⟨?_, hmade, hknown, ?_, ?_, hs.abandoned⟩
    · intro y hy
      rcases mem_append.mp hy with hold | hy
      · exact hinbox y hold
      · exact (hg.serves (hnew y hy)).trans_le hsubs
    · intro x hx hasked
      rcases hstep.mem_asked hasked with hold | hfresh | ⟨sub, e, rfl, hasks⟩
      · exact hs.queue x hx hold
      · exact hg.fresh x hx hfresh
      · exact hback sub e rfl x hx hasks
    · intro x hx y hy hasks
      rcases mem_append.mp hy with hold | hy
      · exact hs.got x hx y hold hasks
      · exact hg.holding x hx y (hnew y hy) hasks
  | enqueue req ch =>
    refine ⟨hinbox, hmade, hknown, ?_, hs.got, hs.abandoned⟩
    intro x hx hasked
    have hstep := Step.append (s := s.queue) (.ofRequest req)
    rcases hstep.mem_asked hasked with hold | hfresh | ⟨sub, e, heq, -⟩
    · exact hs.queue x hx hold
    · exact hg.fresh x hx hfresh
    · cases heq
  | withdraw req =>
    refine ⟨hinbox, ?_, ?_, ?_, ?_, ?_⟩
    · exact forall_mem_append.mpr ⟨hmade, forall_mem_singleton.mpr hsubs⟩
    · exact forall_mem_append.mpr ⟨hknown, forall_mem_singleton.mpr (hminted (howner req.id rfl))⟩
    · refine forall_mem_append.mpr ⟨fun x hx hasked => ?_, forall_mem_singleton.mpr ?_⟩
      · exact hs.queue x hx ((asked_dropRequest s.queue req.id).subset hasked)
      · -- there was one request under the id at most
        exact count_eq_zero.mp (count_eraseP_asks (hcount req.id))
    · exact forall_mem_append.mpr ⟨hs.got, forall_mem_singleton.mpr fun y hy _ => hs.inbox y hy⟩
    · intro x hx
      obtain ⟨y, hy, hrest⟩ := hs.abandoned x hx
      exact ⟨y, mem_append_left _ hy, hrest⟩
  | cleanup req outcome =>
    refine ⟨hinbox, hmade, hknown, hs.queue, hs.got, ?_⟩
    intro x hx
    rcases mem_append.mp hx with hold | hx
    · exact hs.abandoned x hold
    · split at hx
      next hended =>
        obtain ⟨y, hy, hid⟩ := hg.ended req (congrArg _ hended)
        rw [mem_singleton.mp hx]
        exact ⟨y, hy, hid, hs.made y hy⟩
      next => cases hx
  | _ => exact ⟨hinbox, hmade, hknown, hs.queue, hs.got, hs.abandoned⟩

end Moves

/-! ## Every run -/

/-- A pump does not put back a request that was withdrawn meanwhile. -/
def NoStaleBack (w : Pool Rpc Goroutine) : Act RpcCall Ready → Prop
  | .start _ => True
  | .step i _ =>
    match w.calls[i]? with
    | some (.queue (.pump _ (.back e))) => ∀ x ∈ w.shared.log.withdrawn, e.msg.asks x.1 = false
    | _ => True

instance (w : Pool Rpc Goroutine) (a : Act RpcCall Ready) : Decidable (NoStaleBack w a) := by
  unfold NoStaleBack
  split
  · infer_instance
  · split <;> infer_instance

def AllClear (w : Pool Rpc Goroutine) : Prop :=
  MintedOnce w ∧ System.Holds Rpc.Clear (fun _ s g => g.Clear s) w

theorem AllClear.act {a : Act RpcCall Ready} (h : AllClear w)
    (hback : NoStaleBack w a) : AllClear (rpc.act w a) := by
  obtain ⟨honce, hclear⟩ := h
  refine ⟨?_, System.Holds.act hclear ?_ ?_ ?_⟩
  · exact rpc_act honce honce.start fun i _ g _ _ _ hi hmove => honce.step hi hmove
  · intro call _
    cases call <;>
      exact ⟨fun t sub ht hsub => (by cases ht <;> cases hsub), fun x hx y hy => (by cases hy),
        fun x hx => nofun, nofun⟩
  · intro i ready g ha hi
    have hmove := g.next_spec ready w.shared
    have hg := hclear.2 i g hi
    refine ⟨hclear.1.move hmove hg honce.asked_le (fun id hid => ?_) ?_,
      Clear.moved hmove hclear.1 hg⟩
    · have hmem := count_pos_iff.mpr (mem_gather owns hi hid)
      exact count_pos_iff.mp (hmem.trans_le (honce.owned id))
    intro sub e hpump x hx hasks
    rw [ha, NoStaleBack, hi, hpump] at hback
    have hno := hback x hx
    rw [asks_iff.mpr hasks] at hno
    cases hno
  · intro i ready g j other _ hi hj hne
    refine Clear.move (g.next_spec ready w.shared) (hclear.2 j other hj) ?_
    rintro req rfl hfresh
    -- an id belongs to one `SendRequest`
    have howns : other.owns = some req.id := by
      cases other with
      | queue | register | enqueue => exact hfresh
      | _ => cases hfresh
    refine hne (call_eq_of_gather (nodup_iff_count_le_one.mpr fun id => ?_) hj hi howns rfl)
    exact (honce.owned id).trans (count_minted_le _ id)

theorem allClear_run {acts : List (Act RpcCall Ready)} (h : rpc.Steps NoStaleBack idle acts) :
    AllClear (rpc.run idle acts) := by
  refine System.Steps.run_induction (P := AllClear) (fun w a hw hok => hw.act hok) h ?_
  refine ⟨⟨fun id => le_rfl, fun id => le_rfl⟩, ⟨?_, ?_, ?_, ?_, ?_, ?_⟩, fun i g hi => (by cases hi)⟩ <;>
    exact fun x hx => (by cases hx)

/-- A request whose `SendRequest` has given up reaches no subscription made after that, unless
a pump puts it back; an answer has the id of its request, and no response answers two. -/
theorem requests_settled (acts : List (Act RpcCall Ready)) :
    (rpc.Steps NoStaleBack idle acts →
      ∀ x ∈ (rpc.run idle acts).shared.log.abandoned, ∀ y ∈ (rpc.run idle acts).shared.log.received,
        y.2.msg.asks x.1 = true → y.1 < x.2) ∧
    (∀ (i : Nat) req k resp,
      (rpc.run idle acts).calls[i]? = some (.answered req (.response k resp)) → resp.id = req.id) ∧
    ∀ (i j : Nat) req req' k resp resp',
      (rpc.run idle acts).calls[i]? = some (.answered req (.response k resp)) →
      (rpc.run idle acts).calls[j]? = some (.answered req' (.response k resp')) → i = j := by
  refine ⟨fun h x hx y hy hasks => ?_, fun i req k resp hi => ?_, fun i j req req' k resp resp' hi hj => ?_⟩
  · obtain ⟨-, hclear, -⟩ := allClear_run h
    obtain ⟨x', hx', hid, hle⟩ := hclear.abandoned x hx
    have hlt := hclear.got x' hx' y hy (by rw [hid]; exact asks_iff.mp hasks)
    exact hlt.trans_le hle
  · exact (allAddressed_run acts).2 i _ hi
  · refine call_eq_of_gather (f := has)
      (nodup_iff_count_le_one.mpr fun k => ?_) hi hj rfl rfl
    have hplace := onePlace_run acts k
    split at hplace <;> omega

def givenUp : List (Act RpcCall Ready) :=
  [.start (.sendRequest "ping" none), .step 0 .channel, .step 0 .channel, .step 0 .channel,
   .step 0 .channel, .start .subscribe, .step 1 .channel, .step 1 .channel, .step 0 .done,
   .step 0 .channel, .step 0 .channel]

theorem requests_settled_delivered :
    rpc.Steps NoStaleBack idle (givenUp ++ [.step 1 .channel]) ∧
    (rpc.run idle (givenUp ++ [.step 1 .channel])).shared.log.abandoned = [(idOf 1, 1)] ∧
    (rpc.run idle (givenUp ++ [.step 1 .channel])).shared.log.received ≠ [] ∧
    ∀ x ∈ (rpc.run idle (givenUp ++ [.step 1 .channel])).shared.log.abandoned,
      ∀ y ∈ (rpc.run idle (givenUp ++ [.step 1 .channel])).shared.log.received,
        y.2.msg.asks x.1 = true → y.1 < x.2 := by
  have hsteps : rpc.Steps NoStaleBack idle (givenUp ++ [.step 1 .channel]) := by decide +kernel
  exact ⟨hsteps, by decide +kernel, by decide +kernel,
    (requests_settled (givenUp ++ [.step 1 .channel])).1 hsteps⟩

/-- The pump is detached by a later subscription, and puts the request back for it. -/
theorem abandoned_delivered :
    ∃ acts, ∃ x ∈ (rpc.run idle acts).shared.log.abandoned,
      ∃ y ∈ (rpc.run idle acts).shared.log.received, y.2.msg.asks x.1 = true ∧ x.2 ≤ y.1 :=
  ⟨givenUp ++ [.start .subscribe, .step 2 .channel, .step 1 .done, .step 1 .channel, .step 2 .channel,
    .step 2 .channel], by decide +kernel⟩

end MockAgents.Mcp
