import MockAgents.Mcp.Requests
import MockAgents.Mcp.Proofs.Conservation
import MockAgents.Lib.Maps
/-!
# Responses reach their requests

A response is routed by its id to the channel made for that id, and only the `SendRequest`
with that id reads the channel.  A response is in one place at a time: in its
`DeliverResponse`, in a channel, or with the `SendRequest` that took it.
-/

namespace MockAgents.Mcp

open Lib List Option Goroutine Rpc

/-! ## What a step can do -/

inductive Move (s : Rpc) : Goroutine → Rpc → Goroutine → Prop where
  | stay (g : Goroutine) : Move s g s g
  | queue (ready : Ready) (t : Task) (q : Shared) (t' : Task) (next : t.next ready s.queue = (q, t')) :
      Move s (.queue t)
        { s with
          queue := q
          log := { s.log with received := s.log.received ++ (t.receives ready).toList } } (.queue t')
  | mint (method : String) (params : Option (Except String Bytes)) (raw : Bytes) :
      Move s (.request method params) { s with nextID := s.nextID + 1 }
        (.register ⟨idOf (s.nextID + 1), method, raw⟩)
  | fail (method : String) (params : Option (Except String Bytes)) (err : String) :
      Move s (.request method params) { s with nextID := s.nextID + 1 } (.failed err)
  | register (req : Request) :
      Move s (.register req)
        { s with
          chans := s.chans ++ [⟨req.id, none⟩]
          pending := s.pending.insert req.id s.chans.length } (.enqueue req s.chans.length)
  | enqueue (req : Request) (ch : Nat) :
      Move s (.enqueue req ch) { s with queue := s.queue.append (.ofRequest req) }
        (.signal req ch s.queue.bi.sub)
  | signal (req : Request) (ch sub : Nat) :
      Move s (.signal req ch (some sub))
        { s with queue := { s.queue with bi := s.queue.bi.wakeUp sub } } (.await req ch)
  | unheard (req : Request) (ch : Nat) : Move s (.signal req ch none) s (.await req ch)
  | take (req : Request) (ch k : Nat) (resp : Response) (owner : Bytes)
      (full : s.chans[ch]? = some ⟨owner, some (k, resp)⟩) :
      Move s (.await req ch) (s.setBuffer ch none) (.cleanup req (.response k resp))
  | expire (req : Request) (ch : Nat) : Move s (.await req ch) s (.withdraw req)
  | withdraw (req : Request) :
      Move s (.withdraw req)
        { s with
          queue := s.queue.dropRequest req.id
          log := { s.log with withdrawn := s.log.withdrawn ++ [(req.id, s.subs)] } }
        (.cleanup req .contextEnded)
  | cleanup (req : Request) (outcome : Outcome) :
      Move s (.cleanup req outcome)
        { s with
          pending := s.pending.erase req.id
          log := { s.log with
            abandoned := s.log.abandoned ++
              if outcome = .contextEnded then [(req.id, s.subs)] else [] } } (.answered req outcome)
  | refuse (resp : Option Response) (err : Bytes) : Move s (.deliver resp) s (.delivered (some err))
  | accept (resp : Response) :
      Move s (.deliver (some resp))
        { s with log := { s.log with responses := s.log.responses + 1 } }
        (.route s.log.responses resp)
  | route (k ch : Nat) (resp : Response) (pending : s.pending.lookup resp.id = some ch) :
      Move s (.route k resp) { s with pending := s.pending.erase resp.id } (.resolve k ch resp)
  | unknown (k : Nat) (resp : Response) (err : Bytes) :
      Move s (.route k resp) s (.delivered (some err))
  | resolve (k ch : Nat) (resp : Response) (owner : Bytes) (empty : s.chans[ch]? = some ⟨owner, none⟩) :
      Move s (.resolve k ch resp) (s.setBuffer ch (some (k, resp))) (.delivered none)

theorem Goroutine.next_spec (ready : Ready) (s : Rpc) (g : Goroutine) :
    Move s g (g.next ready s).1 (g.next ready s).2 := by
  cases g with
  | queue t => exact .queue ready t _ _ rfl
  | request method params =>
    match params with
    | none => exact .mint method none []
    | some (.ok raw) => exact .mint method _ raw
    | some (.error err) => exact .fail method _ _
  | register req => exact .register req
  | enqueue req ch => exact .enqueue req ch
  | signal req ch sub =>
    cases sub with
    | none => exact .unheard req ch
    | some sub => exact .signal req ch sub
  | await req ch =>
    cases ready with
    | channel =>
      simp only [Goroutine.next]
      split
      next k resp hfull =>
        obtain ⟨⟨owner, buffer⟩, hch, hbuffer⟩ := bind_eq_some_iff.mp hfull
        obtain rfl : buffer = some (k, resp) := hbuffer
        exact .take req ch k resp owner hch
      next => exact .stay _
    | done => exact .expire req ch
  | withdraw req => exact .withdraw req
  | cleanup req outcome => exact .cleanup req outcome
  | answered | failed | delivered => exact .stay _
  | deliver resp =>
    cases resp with
    | none => exact .refuse none _
    | some resp =>
      simp only [Goroutine.next]
      split
      · exact .refuse _ _
      · exact .accept resp
  | route k resp =>
    simp only [Goroutine.next]
    split
    next ch hpending => exact .route k ch resp hpending
    next => exact .unknown k resp _
  | resolve k ch resp =>
    simp only [Goroutine.next]
    split
    next hempty =>
      obtain ⟨⟨owner, buffer⟩, hch, hbuffer⟩ := map_eq_some_iff.mp hempty
      obtain rfl : buffer = none := hbuffer
      exact .resolve k ch resp owner hch
    next => exact .stay _

variable {w : Pool Rpc Goroutine} {ch : Nat} {g g' : Goroutine} {s s' : Rpc} {c : Chan}

/-- What starting a call and every step keep is kept by an action. -/
theorem rpc_act {P : Pool Rpc Goroutine → Prop} {a : Act RpcCall Ready} (hw : P w)
    (hstart : ∀ call, P (rpc.act w (.start call)))
    (hstep : ∀ i ready g s' g', a = .step i ready → w.calls[i]? = some g → Move w.shared g s' g' →
      P ⟨s', w.calls.set i g'⟩) : P (rpc.act w a) :=
  System.act_of_step hw (fun call _ => hstart call) fun i ready g ha hi =>
    hstep i ready g _ _ ha hi (g.next_spec ready w.shared)

/-! ## Channels -/

def Rpc.MadeFor (s : Rpc) (ch : Nat) (id : Bytes) : Prop := ∃ c, s.chans[ch]? = some c ∧ c.owner = id

/-- The pending map and the channels belong to ids. -/
structure Rpc.Addressed (s : Rpc) : Prop where
  pending : ∀ id ch, s.pending.lookup id = some ch → s.MadeFor ch id
  buffer : ∀ (ch : Nat) (c : Chan) k resp, s.chans[ch]? = some c → c.buffer = some (k, resp) →
    resp.id = c.owner

/-- A goroutine uses the channel of its own id, and an answer has the request's id. -/
def Goroutine.Addressed (s : Rpc) : Goroutine → Prop
  | .enqueue req ch | .signal req ch _ | .await req ch => s.MadeFor ch req.id
  | .resolve _ ch resp => s.MadeFor ch resp.id
  | .cleanup req (.response _ resp) | .answered req (.response _ resp) => resp.id = req.id
  | _ => True

theorem Rpc.MadeFor.move (h : Move s g s' g') {id : Bytes} (hmade : s.MadeFor ch id) :
    s'.MadeFor ch id := by
  obtain ⟨c, hc, howner⟩ := hmade
  have hbuffer : ∀ n buffer, (s.setBuffer n buffer).MadeFor ch id := by
    intro n buffer
    simp only [MadeFor, setBuffer, getElem?_modify, hc]
    by_cases hn : n = ch
    · exact ⟨{ c with buffer := buffer }, by simp [hn], howner⟩
    · exact ⟨c, by simp [hn], howner⟩
  cases h with
  | register req =>
    have hlt := (List.getElem?_eq_some_iff.mp hc).choose
    exact ⟨c, by rw [getElem?_append_left hlt]; exact hc, howner⟩
  | take | resolve => exact hbuffer _ _
  | _ => exact ⟨c, hc, howner⟩

theorem Goroutine.Addressed.move (h : Move s g s' g') {other : Goroutine}
    (hother : other.Addressed s) : other.Addressed s' := by
  cases other with
  | enqueue | signal | await | resolve => exact MadeFor.move h hother
  | cleanup req outcome | answered req outcome =>
    cases outcome with
    | response k resp => exact hother
    | contextEnded => trivial
  | queue | request | register | withdraw | failed | deliver | route | delivered => trivial

theorem buffer_of_setBuffer {n ch : Nat} {buffer : Option (Nat × Response)}
    (h : (s.setBuffer n buffer).chans[ch]? = some c) :
    s.chans[ch]? = some c ∨ n = ch ∧ c.buffer = buffer ∧ s.MadeFor ch c.owner := by
  simp only [setBuffer, getElem?_modify] at h
  obtain ⟨c', hc', heq⟩ := map_eq_some_iff.mp h
  by_cases hn : n = ch
  · rw [if_pos hn] at heq
    subst heq
    exact .inr ⟨hn, rfl, c', hc', rfl⟩
  · rw [if_neg hn] at heq
    exact .inl (heq ▸ hc')

theorem Rpc.Addressed.move (h : Move s g s' g') (hs : s.Addressed) (hg : g.Addressed s) :
    s'.Addressed where
  pending := by
    intro id ch hlookup
    have hkept : s.pending.lookup id = some ch → s'.MadeFor ch id :=
      fun hold => MadeFor.move h (hs.pending id ch hold)
    cases h with
    | register req =>
      by_cases hid : id = req.id
      · subst hid
        obtain rfl : s.chans.length = ch := by simpa using hlookup
        exact ⟨⟨req.id, none⟩, by simp, rfl⟩
      · exact hkept (by rwa [AList.lookup_insert_ne hid] at hlookup)
    | cleanup | route => exact hkept (Maps.lookup_of_erase hlookup)
    | _ => exact hkept hlookup
  buffer := by
    intro ch c k resp hch hbuffer
    cases h with
    | register req =>
      rw [getElem?_append] at hch
      split at hch
      · exact hs.buffer ch c k resp hch hbuffer
      · rw [getElem?_singleton] at hch
        split at hch
        · cases hch
          cases hbuffer
        · cases hch
    | take req n k' resp' owner full =>
      rcases buffer_of_setBuffer hch with hold | ⟨-, hnone, -⟩
      · exact hs.buffer ch c k resp hold hbuffer
      · rw [hnone] at hbuffer
        cases hbuffer
    | resolve k' n resp' owner empty =>
      rcases buffer_of_setBuffer hch with hold | ⟨rfl, hput, c₀, hc₀, howner⟩
      · exact hs.buffer ch c k resp hold hbuffer
      · -- the channel was made for the id of the response
        rw [hput] at hbuffer
        cases hbuffer
        obtain ⟨c₁, hc₁, howner₁⟩ := hg
        obtain rfl : c₀ = c₁ := some.inj (hc₀.symm.trans hc₁)
        rw [← howner, howner₁]
    | _ => exact hs.buffer ch c k resp hch hbuffer

theorem Goroutine.Addressed.moved (h : Move s g s' g') (hs : s.Addressed) (hg : g.Addressed s) :
    g'.Addressed s' := by
  have hkept : ∀ {ch id}, s.MadeFor ch id → s'.MadeFor ch id := MadeFor.move h
  cases h with
  | stay => exact hg
  | queue | mint | fail | expire | withdraw | refuse | accept | unknown => trivial
  | register req => exact ⟨⟨req.id, none⟩, by simp, rfl⟩
  | enqueue | signal | unheard => exact hkept hg
  | take req ch k resp owner full =>
    obtain ⟨c, hc, howner⟩ := hg
    obtain rfl : c = ⟨owner, some (k, resp)⟩ := some.inj (hc.symm.trans full)
    exact (hs.buffer ch _ k resp hc rfl).trans howner
  | cleanup req outcome =>
    cases outcome with
    | response k resp => exact hg
    | contextEnded => trivial
  | route k ch resp hpending => exact hs.pending resp.id ch hpending
  | resolve => trivial

def AllAddressed : Pool Rpc Goroutine → Prop :=
  System.Holds Rpc.Addressed (fun _ s g => g.Addressed s)

theorem AllAddressed.act (h : AllAddressed w) (a : Act RpcCall Ready) :
    AllAddressed (rpc.act w a) := by
  refine System.Holds.act h ?_ ?_ ?_
  · intro call _
    cases call <;> trivial
  · intro i ready g _ hi
    have hmove := g.next_spec ready w.shared
    exact ⟨h.1.move hmove (h.2 i g hi), (h.2 i g hi).moved hmove h.1⟩
  · intro i ready g j other _ hi hj _
    exact (h.2 j other hj).move (g.next_spec ready w.shared)

theorem allAddressed_run (acts : List (Act RpcCall Ready)) : AllAddressed (rpc.run idle acts) :=
  System.run_induction (P := AllAddressed) (fun _ a h => h.act a)
    ⟨⟨fun _ _ h => (by cases h), fun ch c k resp h => (by cases h)⟩, fun _ _ h => (by cases h)⟩ acts

/-! ## Where a response is -/

def Goroutine.has : Goroutine → Option Nat
  | .route k _ | .resolve k _ _ | .cleanup _ (.response k _) | .answered _ (.response k _) => some k
  | _ => none

def Rpc.buffered (s : Rpc) : List Nat := s.chans.filterMap fun c => c.buffer.map (·.1)

/-- Every response that came in is in one place at most. -/
def OnePlace (w : Pool Rpc Goroutine) : Prop :=
  ∀ k, (w.gather Goroutine.has).count k + w.shared.buffered.count k ≤
    if k < w.shared.log.responses then 1 else 0

theorem setBuffer_chans (h : s.chans[ch]? = some c) (buffer : Option (Nat × Response)) :
    (s.setBuffer ch buffer).chans = s.chans.set ch { c with buffer := buffer } := by
  obtain ⟨hlt, rfl⟩ := List.getElem?_eq_some_iff.mp h
  apply ext_getElem?
  intro j
  by_cases hj : ch = j
  · subst hj
    simp [setBuffer, hlt]
  · simp [setBuffer, hj]

/-- Changing a buffer trades what the channel held for what it holds. -/
theorem count_setBuffer (h : s.chans[ch]? = some c) (buffer : Option (Nat × Response)) (k : Nat) :
    s.buffered.count k + (buffer.map (·.1)).toList.count k =
      (s.setBuffer ch buffer).buffered.count k + (c.buffer.map (·.1)).toList.count k := by
  have hperm := filterMap_set_perm (f := fun c : Chan => c.buffer.map (·.1)) h
    { c with buffer := buffer }
  have hcount := hperm.count_eq k
  rw [count_append, count_append] at hcount
  rw [buffered, buffered, setBuffer_chans h]
  exact hcount

/-- A step takes a new response in, or moves at most one. -/
theorem Move.count_has (h : Move s g s' g') :
    (g.has = none ∧ g'.has = some s.log.responses ∧ s'.buffered = s.buffered ∧
      s'.log.responses = s.log.responses + 1) ∨
    s'.log.responses = s.log.responses ∧ ∀ k, g'.has.toList.count k + s'.buffered.count k ≤
      g.has.toList.count k + s.buffered.count k := by
  cases h with
  | accept resp => exact .inl ⟨rfl, rfl, rfl, rfl⟩
  | register req =>
    refine .inr ⟨rfl, fun k => ?_⟩
    simp [has, buffered, filterMap_append]
  | take req ch n resp owner full =>
    refine .inr ⟨rfl, fun k => ?_⟩
    have hcount := count_setBuffer full none k
    simp only [has, toList_some, toList_none, map_none, map_some, count_nil] at hcount ⊢
    omega
  | resolve n ch resp owner empty =>
    refine .inr ⟨rfl, fun k => ?_⟩
    have hcount := count_setBuffer empty (some (n, resp)) k
    simp only [has, toList_some, toList_none, map_none, map_some, count_nil] at hcount ⊢
    omega
  | unknown => exact .inr ⟨rfl, fun k => Nat.add_le_add_right (Nat.zero_le _) _⟩
  | cleanup req outcome => cases outcome <;> exact .inr ⟨rfl, fun k => le_rfl⟩
  | enqueue req ch =>
    refine .inr ⟨rfl, fun k => ?_⟩
    simp only [has, buffered, le_refl]
  | _ => exact .inr ⟨rfl, fun k => le_rfl⟩

theorem OnePlace.step (h : OnePlace w) {i : Nat} (hi : w.calls[i]? = some g)
    (hmove : Move w.shared g s' g') : OnePlace ⟨s', w.calls.set i g'⟩ := by
  intro k
  have hbefore := h k
  have hcount := Pool.count_gather_set has hi s' g' k
  rcases hmove.count_has with ⟨hnone, hsome, hsame, hlog⟩ | ⟨hlog, hmoved⟩
  · -- a new number is above all the others
    simp only [hnone, hsome, hsame, hlog, toList_none, toList_some, count_nil,
      count_singleton, beq_iff_eq] at hcount ⊢
    split at hcount <;> split at hbefore <;> split <;> omega
  · have hk := hmoved k
    refine le_trans ?_ (hlog ▸ hbefore)
    show _ + s'.buffered.count k ≤ _
    omega

theorem onePlace_run (acts : List (Act RpcCall Ready)) : OnePlace (rpc.run idle acts) := by
  refine System.run_induction (P := OnePlace) (fun w a h => rpc_act h (fun call => ?_) ?_)
    (fun k => Nat.zero_le _) acts
  · intro k
    have hstart : (rpc.start call).has = none := by cases call <;> rfl
    rw [Pool.gather_start, hstart, toList_none, append_nil]
    exact h k
  · exact fun i ready g s' g' _ hi hmove => h.step hi hmove

end MockAgents.Mcp
