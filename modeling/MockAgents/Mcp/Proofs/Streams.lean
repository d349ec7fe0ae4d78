import MockAgents.Mcp.Streamable
/-!
# Streams and their handlers

A stream belongs to one handler.  Others log an event for it while it is attached, close its
channel or detach it, and leave what its handler has written alone.
-/

namespace MockAgents.Mcp

open Lib List Option Hub Sublist

/-! ## What a step can do -/

inductive Turn (s : Hub) : Handler → Hub → Handler → Prop where
  | stay (g : Handler) : Turn s g s g
  | broadcast (data : Option Bytes) : Turn s (.broadcast data) (s.broadcastNotification data) .done
  | close : Turn s .close s.close .done
  | get (after : Int) :
      Turn s (.get after) { s with streams := s.streams ++ [⟨[], false, []⟩] }
        (.subscribe s.streams.length after)
  | connect : Turn s .connect s.connect (.subscribe s.streams.length s.client.lastID)
  | disconnect : Turn s .disconnect s.disconnect .done
  | receive : Turn s .receive s.receive .done
  | attach (n : Nat) (after : Int) (live : s.session.closed = false) (free : s.session.subs = []) :
      Turn s (.subscribe n after)
        { s with session := { s.session with subs := s.session.subs ++ [n] } }
        (.replay n (s.session.log.filter fun ev => after < ev.id))
  | shut (n : Nat) (after : Int) (closed : s.session.closed = true) :
      Turn s (.subscribe n after) (s.modify n fun st => { st with closed := true }) (.replay n [])
  | conflict (n : Nat) (after : Int) :
      Turn s (.subscribe n after) (s.modify n fun st => { st with closed := true }) (.ended n true)
  | caughtUp (n : Nat) : Turn s (.replay n []) s (.live n)
  | replay (n : Nat) (ev : LoggedEvent) (rest : List LoggedEvent) :
      Turn s (.replay n (ev :: rest)) (s.write n ev) (.replay n rest)
  | take (n : Nat) (ev : LoggedEvent) (rest : List LoggedEvent) (queued : s.buffer n = ev :: rest) :
      Turn s (.live n) (s.modify n fun st => { st with buffer := rest }) (.write n ev)
  | write (n : Nat) (ev : LoggedEvent) : Turn s (.write n ev) (s.write n ev) (.live n)
  | leave (g : Handler) (n : Nat) (serves : g.stream = some n) : Turn s g s (.cancel n)
  | detach (n : Nat) : Turn s (.cancel n) (s.detach n) (.ended n false)

theorem Hub.subscribe_spec (s : Hub) (n : Nat) (after : Int) :
    Turn s (.subscribe n after) (s.subscribe n after).1 (s.subscribe n after).2 := by
  unfold subscribe
  split
  next hclosed => exact .shut n after hclosed
  next hlive =>
    split
    · exact .conflict n after
    next hfree =>
      refine .attach n after (by simpa using hlive) (length_eq_zero_iff.mp ?_)
      simp only [maxSubscribersPerSession] at hfree
      omega

theorem Handler.next_spec (ready : Ready) (s : Hub) (g : Handler) :
    Turn s g (g.next ready s).1 (g.next ready s).2 := by
  cases g with
  | broadcast data => exact .broadcast data
  | close => exact .close
  | get after => exact .get after
  | connect => exact .connect
  | disconnect => exact .disconnect
  | receive => exact .receive
  | subscribe n after => exact s.subscribe_spec n after
  | replay n events =>
    cases events with
    | nil => exact .caughtUp n
    | cons ev rest =>
      cases ready with
      | channel => exact .replay n ev rest
      | done => exact .leave _ n rfl
  | live n =>
    cases ready with
    | channel =>
      simp only [Handler.next]
      split
      next ev rest hqueued => exact .take n ev rest hqueued
      next =>
        split
        · exact .leave _ n rfl
        · exact .stay _
    | done => exact .leave _ n rfl
  | write n ev =>
    cases ready with
    | channel => exact .write n ev
    | done => exact .leave _ n rfl
  | cancel n => exact .detach n
  | ended | done => exact .stay _

/-! ## The operations -/

namespace Hub

variable {s : Hub} {n m : Nat} {f : Stream → Stream}

theorem buffer_modify_ne (h : m ≠ n) : (s.modify m f).buffer n = s.buffer n := by
  simp [buffer, modify, h]

theorem written_modify_ne (h : m ≠ n) : (s.modify m f).written n = s.written n := by
  simp [written, modify, h]

/-- A change of a stream that leaves its channel's contents alone. -/
theorem buffer_modify_of (h : ∀ st, (f st).buffer = st.buffer) :
    (s.modify m f).buffer n = s.buffer n := by
  simp only [buffer, modify, getElem?_modify]
  cases s.streams[n]? with
  | none => rfl
  | some st => by_cases hm : m = n <;> simp [hm, h]

theorem written_modify_of (h : ∀ st, (f st).written = st.written) :
    (s.modify m f).written n = s.written n := by
  simp only [written, modify, getElem?_modify]
  cases s.streams[n]? with
  | none => rfl
  | some st => by_cases hm : m = n <;> simp [hm, h]

theorem buffer_pop (h : n < s.streams.length) (rest : List LoggedEvent) :
    (s.modify n fun st => { st with buffer := rest }).buffer n = rest := by
  simp [buffer, modify, h]

@[simp] theorem length_modify : (s.modify m f).streams.length = s.streams.length := by
  simp [modify]

/-- A broadcast reaches the one subscriber, or detaches it. -/
theorem broadcastNotification_spec (halone : s.session.subs.length ≤ 1) (data : Option Bytes) :
    s.broadcastNotification data = s ∨
    ∃ data', s.session.closed = false ∧
      (s.session.subs = [] ∧ s.broadcastNotification data = s.record data' ∨
      ∃ m, s.session.subs = [m] ∧
        (s.broadcastNotification data = (s.record data').modify m (fun st =>
            { st with buffer := st.buffer ++ [⟨s.session.nextID + 1, data'⟩] }) ∨
        s.broadcastNotification data =
          { (s.record data').modify m (fun st => { st with closed := true }) with
            session := { (s.record data').session with subs := [] } })) := by
  unfold broadcastNotification
  split
  · exact .inl rfl
  next data' =>
    split
    · exact .inl rfl
    next hlive =>
      refine .inr ⟨data', by simpa using hlive, ?_⟩
      match hsubs : s.session.subs with
      | [] => exact .inl ⟨rfl, rfl⟩
      | [m] =>
        refine .inr ⟨m, rfl, ?_⟩
        rw [foldl_cons, offer]
        split
        · exact .inl rfl
        · simp [record, hsubs]
      | _ :: _ :: _ => simp [hsubs] at halone

theorem close_spec (halone : s.session.subs.length ≤ 1) :
    s.close = s ∨ ∃ t : Hub, s.close = { t with session := { s.session with closed := true, subs := [] } } ∧
      t.sent = s.sent ∧ t.client = s.client ∧ t.streams.length = s.streams.length ∧
      ∀ n, t.buffer n = s.buffer n ∧ t.written n = s.written n := by
  unfold close
  split
  · exact .inl rfl
  · refine .inr ⟨_, rfl, ?_⟩
    match hsubs : s.session.subs with
    | [] => exact ⟨rfl, rfl, rfl, fun n => ⟨rfl, rfl⟩⟩
    | [m] =>
      refine ⟨rfl, rfl, length_modify, fun n => ⟨buffer_modify_of ?_, written_modify_of ?_⟩⟩ <;>
        exact fun st => rfl
    | _ :: _ :: _ => simp [hsubs] at halone

end Hub

/-! ## What a stream sees of the steps of others -/

/-- What a step may change for a stream that it does not serve. -/
inductive Aside (n : Nat) (s s' : Hub) : Prop where
  /-- an event was logged; it is in the channel, or the stream is not attached -/
  | logged (ev : LoggedEvent) (live : s.session.closed = false) (sent : s'.sent = s.sent ++ [ev])
      (client : s'.client = s.client)
      (offered : n ∈ s.session.subs ∧ s'.buffer n = s.buffer n ++ [ev] ∨
        n ∉ s'.session.subs ∧ s'.buffer n = s.buffer n)
      (subs : n ∈ s'.session.subs → n ∈ s.session.subs)
  | kept (sent : s'.sent = s.sent) (buffer : s'.buffer n = s.buffer n)
      (subs : n ∈ s'.session.subs → n ∈ s.session.subs)
      (client : s'.client.stream = some n → s.client.stream = some n ∧
        s'.client.received ++ s'.client.inFlight = s.client.received ++ s.client.inFlight ∧
        (s.client.inFlight = [] → s'.client.inFlight = []))
variable {n : Nat} {s s' : Hub}

theorem Aside.of_client (sent : s'.sent = s.sent)
    (buffer : s'.buffer n = s.buffer n) (subs : n ∈ s'.session.subs → n ∈ s.session.subs)
    (client : s'.client = s.client) : Aside n s s' :=
  .kept sent buffer subs fun h => ⟨client ▸ h, by rw [client], fun h' => client ▸ h'⟩

section Turns
variable {s s' : Hub} {g g' : Handler} {n : Nat}

theorem broadcast_aside (halone : s.session.subs.length ≤ 1)
    (hmade : ∀ m ∈ s.session.subs, m < s.streams.length) (data : Option Bytes) :
    Aside n s (s.broadcastNotification data) ∧
      (s.broadcastNotification data).written n = s.written n := by
  rcases Hub.broadcastNotification_spec halone data with hsame |
    ⟨data', hlive, ⟨hnone, hlogged⟩ | ⟨m, hone, hroom | hfull⟩⟩
  · rw [hsame]
    exact ⟨.of_client rfl rfl id rfl, rfl⟩
  · rw [hlogged]
    refine ⟨.logged _ hlive rfl rfl (.inr ⟨?_, rfl⟩) id, rfl⟩
    rw [Hub.record, hnone]
    exact not_mem_nil
  · rw [hroom]
    refine ⟨.logged ⟨s.session.nextID + 1, data'⟩ hlive rfl rfl ?_ id, written_modify_of fun _ => rfl⟩
    by_cases hm : m = n
    · subst hm
      have hmem : m ∈ s.session.subs := by rw [hone]; exact mem_singleton_self m
      exact .inl ⟨hmem, by simp [Hub.buffer, Hub.modify, Hub.record, hmade m hmem]⟩
    · refine .inr ⟨?_, buffer_modify_ne hm⟩
      show n ∉ s.session.subs
      rw [hone, mem_singleton]
      exact fun heq => hm heq.symm
  · rw [hfull]
    have hbuffer : ((s.record data').modify m fun st => { st with closed := true }).buffer n = s.buffer n :=
      buffer_modify_of fun _ => rfl
    have hwritten : ((s.record data').modify m fun st => { st with closed := true }).written n =
        s.written n := written_modify_of fun _ => rfl
    refine ⟨.logged ⟨s.session.nextID + 1, data'⟩ hlive rfl rfl (.inr ⟨not_mem_nil, ?_⟩)
      fun h => absurd h not_mem_nil, ?_⟩
    · simpa only [Hub.buffer] using hbuffer
    · simpa only [Hub.written] using hwritten

theorem receive_client (s : Hub) :
    s.receive.client.stream = s.client.stream ∧
      s.receive.client.received ++ s.receive.client.inFlight = s.client.received ++ s.client.inFlight ∧
      (s.client.inFlight = [] → s.receive.client.inFlight = []) := by
  unfold receive
  split
  next hnone => exact ⟨rfl, rfl, id⟩
  next ev rest hsome => exact ⟨rfl, by simp [hsome], fun h => by simp [hsome] at h⟩

theorem receive_frame (s : Hub) :
    s.receive.session = s.session ∧ s.receive.streams = s.streams ∧ s.receive.sent = s.sent := by
  unfold receive
  split <;> exact ⟨rfl, rfl, rfl⟩

theorem write_client (s : Hub) (m : Nat) (ev : LoggedEvent) :
    (s.write m ev).client =
      if s.client.stream = some m then { s.client with inFlight := s.client.inFlight ++ [ev] }
      else s.client := rfl

theorem buffer_append_stream (h : n < s.streams.length) (st : Stream) (c : Client) :
    ({ s with streams := s.streams ++ [st], client := c } : Hub).buffer n = s.buffer n := by
  simp [Hub.buffer, getElem?_append_left h]

theorem written_append_stream (h : n < s.streams.length) (st : Stream) (c : Client) :
    ({ s with streams := s.streams ++ [st], client := c } : Hub).written n = s.written n := by
  simp [Hub.written, getElem?_append_left h]

theorem Turn.aside (h : Turn s g s' g') (halone : s.session.subs.length ≤ 1)
    (hmade : ∀ m ∈ s.session.subs, m < s.streams.length) (hn : n < s.streams.length)
    (hne : g.stream ≠ some n) : Aside n s s' ∧ s'.written n = s.written n := by
  have hother : ∀ {m}, g.stream = some m → m ≠ n := by
    rintro m hm rfl
    exact hne hm
  cases h with
  | stay | caughtUp | leave => exact ⟨.of_client rfl rfl id rfl, rfl⟩
  | broadcast data => exact broadcast_aside halone hmade data
  | close =>
    rcases close_spec halone with hsame | ⟨t, hclosed, hsent, hclient, -, hstreams⟩
    · rw [hsame]
      exact ⟨.of_client rfl rfl id rfl, rfl⟩
    · rw [hclosed]
      exact ⟨.of_client hsent (hstreams n).1 (fun h => absurd h not_mem_nil) hclient,
        (hstreams n).2⟩
  | get after =>
    exact ⟨.of_client rfl (buffer_append_stream hn _ _) id rfl, written_append_stream hn _ _⟩
  | connect =>
    refine ⟨.kept rfl (buffer_append_stream hn _ _) id fun hnew => ?_, written_append_stream hn _ _⟩
    obtain rfl : s.streams.length = n := some.inj hnew
    exact absurd hn (lt_irrefl _)
  | disconnect => exact ⟨.kept rfl rfl id nofun, rfl⟩
  | receive =>
    obtain ⟨hsession, hstreams, hsent⟩ := receive_frame s
    obtain ⟨hstream, hread, hnone⟩ := receive_client s
    refine ⟨.kept hsent (by rw [Hub.buffer, hstreams]; rfl) (by rw [hsession]; exact id) fun h => ?_,
      by rw [Hub.written, hstreams]; rfl⟩
    exact ⟨hstream ▸ h, hread, hnone⟩
  | attach m after live free =>
    refine ⟨.of_client rfl rfl (fun h => ?_) rfl, rfl⟩
    have hnew : n = m := by simpa [free] using h
    exact absurd hnew.symm (hother rfl)
  | shut | conflict =>
    exact ⟨.of_client rfl (buffer_modify_of fun _ => rfl) id rfl, written_modify_of fun _ => rfl⟩
  | replay m ev rest | write m ev =>
    have hclient : s.client.stream = some n → (s.write m ev).client = s.client := by
      intro hstream
      rw [write_client, if_neg]
      rw [hstream]
      exact fun heq => hother rfl (some.inj heq).symm
    refine ⟨.kept rfl (buffer_modify_of fun _ => rfl) id fun hstream => ?_,
      written_modify_ne (hother rfl)⟩
    have hsame : s.client.stream = some n := by
      rw [write_client] at hstream
      split at hstream <;> exact hstream
    rw [hclient hsame]
    exact ⟨hsame, rfl, id⟩
  | take m ev rest queued =>
    exact ⟨.of_client rfl (buffer_modify_ne (hother rfl)) id rfl, written_modify_ne (hother rfl)⟩
  | detach m => exact ⟨.of_client rfl rfl mem_of_mem_erase rfl, rfl⟩

theorem length_broadcastNotification (halone : s.session.subs.length ≤ 1) (data : Option Bytes) :
    (s.broadcastNotification data).streams.length = s.streams.length := by
  rcases Hub.broadcastNotification_spec halone data with hsame |
    ⟨data', -, ⟨-, hlogged⟩ | ⟨m, -, hroom | hfull⟩⟩
  · rw [hsame]
  · rw [hlogged, Hub.record]
  · rw [hroom, Hub.length_modify, Hub.record]
  · rw [hfull]
    simp [Hub.record]

theorem length_close (halone : s.session.subs.length ≤ 1) :
    s.close.streams.length = s.streams.length := by
  rcases close_spec halone with hsame | ⟨t, hclosed, -, -, hlength, -⟩
  · rw [hsame]
  · rw [hclosed]
    exact hlength

theorem Turn.stream (h : Turn s g s' g') (halone : s.session.subs.length ≤ 1) :
    s.streams.length ≤ s'.streams.length ∧
    (g'.stream = g.stream ∨ g'.stream = none ∨ g.stream = none ∧
      g'.stream = some s.streams.length ∧ s.streams.length < s'.streams.length) := by
  cases h with
  | get | connect => exact ⟨by simp [Hub.connect], .inr (.inr ⟨rfl, rfl, by simp [Hub.connect]⟩)⟩
  | broadcast data => exact ⟨(length_broadcastNotification halone data).ge, .inl rfl⟩
  | close => exact ⟨(length_close halone).ge, .inl rfl⟩
  | receive =>
    obtain ⟨-, hstreams, -⟩ := receive_frame s
    exact ⟨by rw [hstreams], .inl rfl⟩
  | leave g n serves => exact ⟨le_rfl, .inl serves.symm⟩
  | shut | conflict | take | replay | write => exact ⟨by simp [Hub.write], .inl rfl⟩
  | stay | disconnect | attach | caughtUp | detach => exact ⟨le_rfl, .inl rfl⟩

end Turns

/-! ## Who serves a stream -/

structure Hub.Wired (s : Hub) : Prop where
  alone : s.session.subs.length ≤ 1
  made : ∀ n ∈ s.session.subs, n < s.streams.length
  reads : ∀ n, s.client.stream = some n → n < s.streams.length
  shut : s.session.closed = true → s.session.subs = []

def Handler.Wired (s : Hub) : Handler → Prop
  | .subscribe n _ => s.buffer n = [] ∧ s.written n = [] ∧ n ∉ s.session.subs
  | _ => True

/-- Every stream belongs to one handler. -/
structure Wired (w : Pool Hub Handler) : Prop where
  numbered : w.Numbered Handler.stream (·.streams.length)
  wired : System.Holds Hub.Wired (fun _ s g => g.Wired s) w

theorem Hub.Wired.of_subs (h : s.Wired) (hsubs : s'.session.subs.Sublist s.session.subs)
    (hlength : s.streams.length ≤ s'.streams.length) (hstream : s'.client.stream = s.client.stream)
    (hclosed : s'.session.closed = true → s.session.closed = true ∨ s'.session.subs = []) : s'.Wired where
  alone := hsubs.length_le.trans h.alone
  made n hn := (h.made n (hsubs.subset hn)).trans_le hlength
  reads n hn := (h.reads n (hstream ▸ hn)).trans_le hlength
  shut hshut := by
    rcases hclosed hshut with hwas | hnone
    · rw [h.shut hwas] at hsubs
      exact sublist_nil.mp hsubs
    · exact hnone

section Wired
variable {s s' : Hub} {g g' : Handler}

theorem write_stream (n : Nat) (ev : LoggedEvent) : (s.write n ev).client.stream = s.client.stream := by
  rw [write_client]
  split <;> rfl

theorem Hub.Wired.broadcastNotification (hs : s.Wired) (data : Option Bytes) :
    (s.broadcastNotification data).Wired := by
  have hlength := (length_broadcastNotification hs.alone data).ge
  rcases Hub.broadcastNotification_spec hs.alone data with hsame |
    ⟨data', hlive, ⟨-, hlogged⟩ | ⟨m, -, hroom | hfull⟩⟩
  · rw [hsame]
    exact hs
  · rw [hlogged] at hlength ⊢
    exact hs.of_subs (refl _) hlength rfl .inl
  · rw [hroom] at hlength ⊢
    exact hs.of_subs (refl _) hlength rfl .inl
  · rw [hfull] at hlength ⊢
    exact hs.of_subs (nil_sublist _) hlength rfl fun _ => .inr rfl

theorem Hub.Wired.move (h : Turn s g s' g') (hs : s.Wired)
    (hn : ∀ n, g.stream = some n → n < s.streams.length) : s'.Wired := by
  have hlength := (h.stream hs.alone).1
  cases h with
  | stay | caughtUp | leave => exact hs
  | broadcast data => exact hs.broadcastNotification data
  | close =>
    rcases close_spec hs.alone with hsame | ⟨t, hclosed, -, hclient, -, -⟩
    · rw [hsame]
      exact hs
    · rw [hclosed] at hlength ⊢
      exact hs.of_subs (nil_sublist _) hlength (congrArg Client.stream hclient) fun _ => .inr rfl
  | connect =>
    refine ⟨hs.alone, fun n hn => (hs.made n hn).trans_le hlength, fun n hn => ?_, hs.shut⟩
    obtain rfl : s.streams.length = n := some.inj hn
    simp [Hub.connect]
  | disconnect => exact ⟨hs.alone, hs.made, nofun, hs.shut⟩
  | receive =>
    obtain ⟨hsession, -, -⟩ := receive_frame s
    refine hs.of_subs (by rw [hsession]) hlength (receive_client s).1 fun h => ?_
    rw [hsession] at h
    exact .inl h
  | attach n after live free =>
    refine ⟨by simp [free], fun m hm => ?_, hs.reads, fun hshut => ?_⟩
    · obtain rfl : m = n := by simpa [free] using hm
      exact hn m rfl
    · rw [live] at hshut
      cases hshut
  | get | shut | conflict | take => exact hs.of_subs (refl _) hlength rfl .inl
  | replay n ev rest => exact hs.of_subs (refl _) hlength (write_stream n ev) .inl
  | write n ev => exact hs.of_subs (refl _) hlength (write_stream n ev) .inl
  | detach n => exact hs.of_subs erase_sublist hlength rfl .inl

theorem Handler.Wired.aside (hg : g.Wired s)
    (h : ∀ n, g.stream = some n → Aside n s s' ∧ s'.written n = s.written n) : g.Wired s' := by
  cases g with
  | subscribe n after =>
    obtain ⟨hbuffer, hwritten, hsubs⟩ := hg
    obtain ⟨haside, hsame⟩ := h n rfl
    cases haside with
    | logged ev live sent client offered subs =>
      refine ⟨?_, hsame.trans hwritten, fun h => hsubs (subs h)⟩
      rcases offered with ⟨hattached, -⟩ | ⟨-, hkept⟩
      · exact absurd hattached hsubs
      · exact hkept.trans hbuffer
    | kept sent buffer subs client =>
      exact ⟨buffer.trans hbuffer, hsame.trans hwritten, fun h => hsubs (subs h)⟩
  | _ => trivial

theorem Handler.Wired.moved (h : Turn s g s' g') (hs : s.Wired) (hg : g.Wired s) : g'.Wired s' := by
  have hnew : s.streams.length ∉ s.session.subs := fun hmem => absurd (hs.made _ hmem) (lt_irrefl _)
  cases h with
  | stay => exact hg
  | get after => exact ⟨by simp [Hub.buffer], by simp [Hub.written], hnew⟩
  | connect => exact ⟨by simp [Hub.buffer, Hub.connect], by simp [Hub.written, Hub.connect], hnew⟩
  | _ => trivial

end Wired
variable {w : Pool Hub Handler} {i : Nat} {g : Handler}

theorem Wired.below (h : Wired w)
    (hi : w.calls[i]? = some g) (hn : g.stream = some n) : n < w.shared.streams.length :=
  h.numbered.below n (Pool.mem_gather Handler.stream hi hn)

theorem Wired.aside (h : Wired w) {j : Nat} {g' other : Handler}
    (hturn : Turn w.shared g s' g') (hi : w.calls[i]? = some g) (hj : w.calls[j]? = some other)
    (hne : j ≠ i) (hn : other.stream = some n) : Aside n w.shared s' ∧ s'.written n = w.shared.written n :=
  hturn.aside h.wired.1.alone h.wired.1.made (h.below hj hn) fun hg =>
    hne (Pool.call_eq_of_gather h.numbered.nodup hj hi hn hg)

theorem Wired.act (h : Wired w) (a : Act StreamCall Ready) : Wired (streams.act w a) := by
  refine ⟨?_, System.Holds.act h.wired ?_ ?_ ?_⟩
  · refine System.act_of_step h.numbered (fun call _ => ?_) fun i ready g _ hi => ?_
    · exact h.numbered.start (by cases call <;> rfl)
    · obtain ⟨hle, hmoved⟩ := (g.next_spec ready w.shared).stream h.wired.1.alone
      exact h.numbered.set hi hle hmoved
  · intro call _
    cases call <;> trivial
  · intro i ready g _ hi
    have hturn := g.next_spec ready w.shared
    exact ⟨h.wired.1.move hturn fun n hn => h.below hi hn, (h.wired.2 i g hi).moved hturn h.wired.1⟩
  · intro i ready g j other _ hi hj hne
    exact (h.wired.2 j other hj).aside fun n hn => h.aside (g.next_spec ready w.shared) hi hj hne hn

theorem wired_fresh : Wired fresh :=
  ⟨⟨nodup_nil, nofun⟩, ⟨Nat.zero_le 1, nofun, nofun, nofun⟩, nofun⟩

theorem wired_run (acts : List (Act StreamCall Ready)) : Wired (streams.run fresh acts) :=
  System.run_induction (P := Wired) (fun _ a h => h.act a) wired_fresh acts

end MockAgents.Mcp
