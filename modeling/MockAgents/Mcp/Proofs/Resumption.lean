import MockAgents.Mcp.Proofs.Streams
/-!
# Streams are resumed without a gap

An event is in the log, in a channel, in a handler's hand or in flight.  For the stream that
the client reads these follow one another in the order of the log, and end with it while the
stream is attached: what the client has received is a run of consecutive events.  A
subscription takes its replay and attaches in one critical section, so that nothing falls
between the two.
-/

namespace MockAgents.Mcp

open Lib List Hub System

/-! ## One run of events -/

/-- For the stream that the client reads: what it received, what is in flight, what the
handler is about to write and what is in the channel follow one another in the log, up to its
end while the stream is attached. -/
def Chain (s : Hub) (n : Nat) (ahead : List LoggedEvent) : Prop :=
  s.client.stream = some n →
    s.client.received ++ s.client.inFlight ++ ahead ++ s.buffer n <:+: s.sent ∧
    (n ∈ s.session.subs → s.client.received ++ s.client.inFlight ++ ahead ++ s.buffer n <:+ s.sent)

def Handler.Sound (s : Hub) : Handler → Prop
  | .subscribe n after =>
    s.client.stream = some n → s.client.inFlight = [] ∧ after = s.client.lastID
  | .replay n events => Chain s n events
  | .live n => Chain s n []
  | .write n ev => Chain s n [ev]
  | _ => True

structure Hub.Sound (s : Hub) : Prop where
  ids : s.sent.map (·.id) = List.range' 1 s.session.nextID
  log : s.session.log = s.sent.drop (s.sent.length - maxSessionLogEvents)
  got : s.client.received ++ s.client.inFlight <:+: s.sent
variable {s s' : Hub} {n : Nat}

theorem Chain.aside {ahead : List LoggedEvent} (h : Chain s n ahead)
    (haside : Aside n s s') : Chain s' n ahead := by
  intro hstream
  cases haside with
  | logged ev live sent client offered subs =>
    obtain ⟨hpart, hsuffix⟩ := h (client ▸ hstream)
    rw [sent, client]
    rcases offered with ⟨hattached, hbuffer⟩ | ⟨hdetached, hbuffer⟩
    · have hlonger : s.client.received ++ s.client.inFlight ++ ahead ++ s'.buffer n <:+ s.sent ++ [ev] := by
        rw [hbuffer, ← append_assoc]
        exact (suffix_append_inj_of_length_eq rfl).mpr ⟨hsuffix hattached, rfl⟩
      exact ⟨hlonger.isInfix, fun _ => hlonger⟩
    · rw [hbuffer]
      exact ⟨hpart.trans (prefix_append _ _).isInfix, fun h => absurd h hdetached⟩
  | kept sent buffer subs client =>
    obtain ⟨hstream', hread, -⟩ := client hstream
    obtain ⟨hpart, hsuffix⟩ := h hstream'
    rw [sent, buffer, hread]
    exact ⟨hpart, fun h => hsuffix (subs h)⟩

theorem Handler.Sound.aside {g : Handler} (hg : g.Sound s)
    (h : ∀ n, g.stream = some n → Aside n s s') : g.Sound s' := by
  cases g with
  | subscribe n after =>
    intro hstream
    cases h n rfl with
    | logged ev live sent client offered subs =>
      rw [client] at hstream ⊢
      exact hg hstream
    | kept sent buffer subs client =>
      obtain ⟨hstream', hread, hnone⟩ := client hstream
      obtain ⟨hempty, hafter⟩ := hg hstream'
      have hempty' := hnone hempty
      rw [hempty, hempty', append_nil, append_nil] at hread
      exact ⟨hempty', by rw [hafter, Client.lastID, Client.lastID, hread]⟩
  | replay n events => exact Chain.aside hg (h n rfl)
  | live n => exact Chain.aside hg (h n rfl)
  | write n ev => exact Chain.aside hg (h n rfl)
  | _ => trivial
variable {ev : LoggedEvent}

theorem Chain.write {rest : List LoggedEvent}
    (h : Chain s n (ev :: rest)) : Chain (s.write n ev) n rest := by
  intro hstream
  have hreads : s.client.stream = some n := by
    rw [write_client] at hstream
    split at hstream <;> exact hstream
  have hbuffer : (s.write n ev).buffer n = s.buffer n := buffer_modify_of fun _ => rfl
  obtain ⟨hpart, hsuffix⟩ := h hreads
  have hmoved : s.client.received ++ (s.client.inFlight ++ [ev]) ++ rest ++ s.buffer n =
      s.client.received ++ s.client.inFlight ++ (ev :: rest) ++ s.buffer n := by simp
  rw [write_client, if_pos hreads, hbuffer]
  simp only [hmoved]
  exact ⟨hpart, hsuffix⟩

/-! ## Replay -/
variable {sent : List LoggedEvent} {k : Nat}

theorem id_of_append {before after : List LoggedEvent}
    (hids : sent.map (·.id) = List.range' 1 k) (hsplit : sent = before ++ ev :: after) :
    ev.id = before.length + 1 := by
  have hat := congrArg (·[before.length]?) hids
  simp only [hsplit, getElem?_map, getElem?_append_right, le_refl, Nat.sub_self,
    getElem?_cons_zero, Option.map_some] at hat
  have hlt : before.length < k := by
    have hlength := congrArg List.length hids
    simp only [hsplit, length_map, length_append, length_cons, length_range'] at hlength
    omega
  rw [getElem?_range' hlt] at hat
  have hid := Option.some.inj hat
  omega

variable {events : List LoggedEvent}

/-- The events after an id are those behind its place in the log. -/
theorem filter_after {a : Nat}
    (hids : events.map (·.id) = List.range' (a + 1) events.length) (m : Nat) :
    (events.filter fun ev => (m : Int) < ev.id) = events.drop (m - a) := by
  induction events generalizing a with
  | nil => simp
  | cons ev events ih =>
    rw [map_cons, length_cons] at hids
    obtain ⟨hid, hrest⟩ := cons.inj hids
    have hrec := ih hrest
    by_cases hm : m ≤ a
    · have hpos : ((m : Int) < ev.id) := by omega
      have hzero : m - (a + 1) = 0 := by omega
      rw [hzero, drop_zero] at hrec
      rw [filter_cons_of_pos (by simpa using hpos), hrec, Nat.sub_eq_zero_of_le hm, drop_zero]
    · have hneg : ¬ ((m : Int) < ev.id) := by omega
      rw [filter_cons_of_neg (by simpa using hneg), hrec]
      have hsucc : m - a = m - (a + 1) + 1 := by omega
      rw [hsucc, drop_succ_cons]

theorem Hub.Sound.length_sent (h : s.Sound) : s.sent.length = s.session.nextID := by
  have hlength := congrArg List.length h.ids
  simpa using hlength

theorem Hub.Sound.replay_eq (h : s.Sound) (m : Nat) :
    (s.session.log.filter fun ev => (m : Int) < ev.id) =
      s.sent.drop (max (s.sent.length - maxSessionLogEvents) m) := by
  rw [h.log]
  generalize s.sent.length - maxSessionLogEvents = k
  have hids : (s.sent.drop k).map (·.id) = range' (k + 1) (s.sent.drop k).length := by
    rw [map_drop, h.ids, drop_range', length_drop, h.length_sent]
    congr 1
    omega
  rw [filter_after hids, drop_drop]
  congr 1
  omega

/-- What a client is replayed follows what it received, if no event after that is gone. -/
theorem Hub.Sound.resume (h : s.Sound) (hempty : s.client.inFlight = [])
    (hwithin : s.client.received ≠ [] → s.session.nextID ≤ s.client.lastID + maxSessionLogEvents) :
    s.client.received ++ (s.session.log.filter fun ev => (s.client.lastID : Int) < ev.id) <:+ s.sent := by
  rw [h.replay_eq]
  rcases eq_nil_or_concat s.client.received with hnone | ⟨init, last, hlast⟩
  · rw [hnone, nil_append]
    exact drop_suffix _ _
  · obtain ⟨before, after, hsent⟩ := h.got
    rw [hempty, append_nil] at hsent
    have hsplit : s.sent = (before ++ init) ++ last :: after := by
      rw [← hsent, hlast]
      simp
    have hid : s.client.lastID = (before ++ init).length + 1 := by
      rw [Client.lastID, hlast]
      simpa using id_of_append h.ids hsplit
    have hle := hwithin (by simp [hlast])
    have hmax : max (s.sent.length - maxSessionLogEvents) s.client.lastID = (before ++ init).length + 1 := by
      rw [h.length_sent]
      omega
    have hdrop : s.sent.drop ((before ++ init).length + 1) = after := by
      rw [hsplit, ← drop_drop, drop_left]
      rfl
    rw [hmax, hdrop]
    exact ⟨before, by rw [← hsent, append_assoc]⟩

theorem record_log (bound : Nat) (ev : LoggedEvent) :
    (sent.drop (sent.length - bound) ++ [ev]).drop ((sent.drop (sent.length - bound) ++ [ev]).length - bound) =
      (sent ++ [ev]).drop ((sent ++ [ev]).length - bound) := by
  rw [← drop_append_of_le_length (Nat.sub_le _ _), drop_drop]
  congr 1
  simp only [length_drop, length_append, length_singleton]
  omega

theorem Hub.Sound.record (h : s.Sound) (data : Bytes) : (s.record data).Sound where
  ids := by
    simp only [Hub.record, map_append, h.ids, map_singleton, range'_concat]
    congr 2
    omega
  log := by
    simp only [Hub.record, h.log]
    exact record_log maxSessionLogEvents _
  got := h.got.trans (prefix_append _ _).isInfix

theorem Hub.Sound.of_log (h : s.Sound) (hsent : s'.sent = s.sent)
    (hnext : s'.session.nextID = s.session.nextID) (hlog : s'.session.log = s.session.log)
    (hgot : s'.client.received ++ s'.client.inFlight <:+: s.sent) : s'.Sound where
  ids := by rw [hsent, hnext, h.ids]
  log := by rw [hlog, hsent, h.log]
  got := by rwa [hsent]

/-! ## Every step -/

section Steps
variable {s s' : Hub} {g g' : Handler}

theorem Hub.Sound.broadcastNotification (hs : s.Sound) (halone : s.session.subs.length ≤ 1)
    (data : Option Bytes) : (s.broadcastNotification data).Sound := by
  rcases broadcastNotification_spec halone data with hsame |
    ⟨data', -, ⟨-, hlogged⟩ | ⟨m, -, hroom | hfull⟩⟩
  · rw [hsame]
    exact hs
  · rw [hlogged]
    exact hs.record data'
  · have hrecord := hs.record data'
    rw [hroom]
    exact hrecord.of_log rfl rfl rfl hrecord.got
  · have hrecord := hs.record data'
    rw [hfull]
    generalize s.record data' = t at hrecord ⊢
    exact hrecord.of_log rfl rfl rfl hrecord.got

theorem Hub.Sound.write (hs : s.Sound) {n : Nat} {ev : LoggedEvent} {rest : List LoggedEvent}
    (hchain : Chain s n (ev :: rest)) : (s.write n ev).Sound := by
  refine hs.of_log rfl rfl rfl ?_
  rw [write_client]
  split
  next hreads =>
    obtain ⟨hpart, -⟩ := hchain hreads
    refine IsInfix.trans (IsPrefix.isInfix ?_) hpart
    exact ⟨rest ++ s.buffer n, by simp⟩
  next => exact hs.got

/-- The log, and what the client has received. -/
theorem Hub.Sound.move (h : Turn s g s' g') (hs : s.Sound) (hg : g.Sound s)
    (halone : s.session.subs.length ≤ 1) : s'.Sound := by
  have hreceived : s.client.received ++ [] <:+: s.sent := by
    rw [append_nil]
    exact IsInfix.trans (prefix_append _ s.client.inFlight).isInfix hs.got
  cases h with
  | stay | caughtUp | leave => exact hs
  | broadcast data => exact hs.broadcastNotification halone data
  | close =>
    rcases close_spec halone with hsame | ⟨t, hclosed, hsent, hclient, -, -⟩
    · rw [hsame]
      exact hs
    · rw [hclosed]
      exact hs.of_log hsent rfl rfl (by rw [hclient]; exact hs.got)
  | connect | disconnect => exact hs.of_log rfl rfl rfl hreceived
  | receive =>
    obtain ⟨hsession, -, hsent⟩ := receive_frame s
    refine hs.of_log hsent (by rw [hsession]) (by rw [hsession]) ?_
    rw [(receive_client s).2.1]
    exact hs.got
  | replay n ev rest => exact hs.write hg
  | write n ev => exact hs.write hg
  | get | attach | shut | conflict | take | detach => exact hs.of_log rfl rfl rfl hs.got

/-- The client is at most the log's bound behind when it comes back. -/
def Handler.WithinLog (s : Hub) : Handler → Prop
  | .subscribe n _ => s.client.stream = some n → s.client.received ≠ [] →
      s.session.nextID ≤ s.client.lastID + maxSessionLogEvents
  | _ => True

theorem Handler.Sound.moved (h : Turn s g s' g') (hs : s.Sound) (hg : g.Sound s) (hwired : s.Wired)
    (hfresh : g.Wired s) (hn : ∀ n, g.stream = some n → n < s.streams.length)
    (hwithin : g.WithinLog s) : g'.Sound s' := by
  cases h with
  | stay => exact hg
  | broadcast | close | disconnect | receive | conflict | leave | detach => trivial
  | get after => exact fun hstream => absurd (hwired.reads _ hstream) (lt_irrefl _)
  | connect => exact fun _ => ⟨rfl, rfl⟩
  | attach n after live free =>
    intro hstream
    obtain ⟨hempty, rfl⟩ := hg hstream
    have hsuffix : s.client.received ++ s.client.inFlight ++
        (s.session.log.filter fun ev => (s.client.lastID : Int) < ev.id) ++ s.buffer n <:+ s.sent := by
      rw [hfresh.1, hempty, append_nil, append_nil]
      exact hs.resume hempty (hwithin hstream)
    exact ⟨hsuffix.isInfix, fun _ => hsuffix⟩
  | shut n after closed =>
    intro hstream
    have hkept : (s.modify n fun st => { st with closed := true }).buffer n = s.buffer n :=
      buffer_modify_of fun _ => rfl
    rw [hkept, hfresh.1, append_nil, append_nil]
    exact ⟨hs.got, fun h => absurd h hfresh.2.2⟩
  | caughtUp n => exact hg
  | replay n ev rest => exact Chain.write hg
  | take n ev rest queued =>
    intro hstream
    obtain ⟨hpart, hsuffix⟩ := hg hstream
    rw [queued] at hpart hsuffix
    rw [buffer_pop (hn n rfl)]
    simp only [append_nil, append_assoc, singleton_append] at hpart hsuffix ⊢
    exact ⟨hpart, hsuffix⟩
  | write n ev => exact Chain.write hg

end Steps

/-! ## Every run -/

/-- At each reconnect the client is at most the replay buffer's capacity behind. -/
def WithinReplay (w : Pool Hub Handler) : Act StreamCall Ready → Prop
  | .start _ => True
  | .step i _ => ∀ g ∈ w.calls[i]?, g.WithinLog w.shared

instance (s : Hub) (g : Handler) : Decidable (g.WithinLog s) := by
  unfold Handler.WithinLog
  split <;> infer_instance

instance (w : Pool Hub Handler) (a : Act StreamCall Ready) : Decidable (WithinReplay w a) := by
  unfold WithinReplay
  split <;> infer_instance

def Resumed (w : Pool Hub Handler) : Prop :=
  Wired w ∧ System.Holds Hub.Sound (fun _ s g => g.Sound s) w
variable {w : Pool Hub Handler}

theorem Resumed.act {a : Act StreamCall Ready} (h : Resumed w)
    (hwithin : WithinReplay w a) : Resumed (streams.act w a) := by
  obtain ⟨hwired, hsound⟩ := h
  refine ⟨hwired.act a, Holds.act hsound ?_ ?_ ?_⟩
  · intro call _
    cases call <;> trivial
  · intro i ready g ha hi
    have hturn := g.next_spec ready w.shared
    have hg := hsound.2 i g hi
    subst ha
    exact ⟨hsound.1.move hturn hg hwired.wired.1.alone,
      hg.moved hturn hsound.1 hwired.wired.1 (hwired.wired.2 i g hi) (fun n hn => hwired.below hi hn)
        (hwithin g hi)⟩
  · intro i ready g j other _ hi hj hne
    exact (hsound.2 j other hj).aside fun n hn =>
      (hwired.aside (g.next_spec ready w.shared) hi hj hne hn).1

theorem ids_of_infix (hids : sent.map (·.id) = List.range' 1 k) (h : events <:+: sent) :
    ∃ first, events.map (·.id) = List.range' first events.length := by
  obtain ⟨before, after, rfl⟩ := h
  refine ⟨before.length + 1, ext_getElem (by simp) fun i hi _ => ?_⟩
  have hi' : i < events.length := by simpa using hi
  have hsplit : before ++ events ++ after =
      (before ++ events.take i) ++ events[i] :: (events.drop (i + 1) ++ after) := by
    conv_lhs => rw [← take_append_drop i events, drop_eq_getElem_cons hi']
    simp only [append_assoc, cons_append]
  have hid := id_of_append hids hsplit
  simp only [getElem_map, getElem_range', hid, length_append, length_take]
  omega

/-! ## After `close` -/

/-- What a handler has written, followed by what it has left: the rest of its replay, the event
in its hand and its channel. -/
def Handler.due (s : Hub) : Handler → List LoggedEvent
  | .replay n events => s.written n ++ (events ++ s.buffer n)
  | .live n => s.written n ++ s.buffer n
  | .write n ev => s.written n ++ (ev :: s.buffer n)
  | .subscribe n _ | .cancel n | .ended n _ => s.written n
  | _ => []

/-- The same for the call under a number, if it is there. -/
def dueAt (w : Pool Hub Handler) (i : Nat) : List LoggedEvent :=
  (w.calls[i]?.map (·.due w.shared)).getD []

section Closed
variable {s s' : Hub} {g g' : Handler}
variable {n : Nat}

theorem Handler.written_due (h : g.stream = some n) : s.written n <+: g.due s := by
  cases g with
  | replay | live | write =>
    cases h
    exact prefix_append _ _
  | subscribe | cancel | ended =>
    cases h
    exact prefix_rfl
  | _ => cases h

theorem Handler.due_aside (hclosed : s.session.closed = true)
    (h : ∀ n, g.stream = some n → Aside n s s' ∧ s'.written n = s.written n) : g.due s' = g.due s := by
  have hsame : ∀ n, g.stream = some n → s'.buffer n = s.buffer n ∧ s'.written n = s.written n := by
    intro n hn
    obtain ⟨haside, hwritten⟩ := h n hn
    cases haside with
    | logged ev live => simp [hclosed] at live
    | kept sent buffer => exact ⟨buffer, hwritten⟩
  cases g with
  | replay n | live n | write n =>
    obtain ⟨hbuffer, hwritten⟩ := hsame n rfl
    simp only [Handler.due, hbuffer, hwritten]
  | subscribe n | cancel n | ended n => exact (hsame n rfl).2
  | _ => rfl

theorem Turn.closed (h : Turn s g s' g') (hclosed : s.session.closed = true) :
    s'.session.closed = true ∧ s'.sent = s.sent := by
  cases h with
  | broadcast data =>
    cases data with
    | none => exact ⟨hclosed, rfl⟩
    | some data =>
      rw [broadcastNotification, if_pos hclosed]
      exact ⟨hclosed, rfl⟩
  | close =>
    rw [Hub.close, if_pos hclosed]
    exact ⟨hclosed, rfl⟩
  | receive =>
    obtain ⟨hsession, -, hsent⟩ := receive_frame s
    exact ⟨hsession ▸ hclosed, hsent⟩
  | _ => exact ⟨hclosed, rfl⟩

theorem Hub.written_write (hn : n < s.streams.length) (ev : LoggedEvent) :
    (s.write n ev).written n = s.written n ++ [ev] := by
  simp [Hub.written, write, modify, hn]

theorem Hub.buffer_write (n : Nat) (ev : LoggedEvent) : (s.write n ev).buffer n = s.buffer n :=
  buffer_modify_of fun _ => rfl

/-- A handler writes what it has left, or leaves. -/
theorem Turn.due (h : Turn s g s' g') (hclosed : s.session.closed = true) (hg : g.Wired s)
    (hn : ∀ n, g.stream = some n → n < s.streams.length) : g'.due s' <+: g.due s := by
  cases h with
  | stay | caughtUp => exact prefix_rfl
  | broadcast | close | disconnect | receive => exact nil_prefix
  | get | connect => simp [Handler.due, Hub.written, Hub.connect]
  | attach n after live => simp [hclosed] at live
  | shut n after =>
    have hbuffer : (s.modify n fun st => { st with closed := true }).buffer n = s.buffer n :=
      buffer_modify_of fun _ => rfl
    have hwritten : (s.modify n fun st => { st with closed := true }).written n = s.written n :=
      written_modify_of fun _ => rfl
    simp [Handler.due, hbuffer, hwritten, hg.1]
  | conflict n after =>
    have hwritten : (s.modify n fun st => { st with closed := true }).written n = s.written n :=
      written_modify_of fun _ => rfl
    simp [Handler.due, hwritten]
  | replay n ev rest =>
    simp [Handler.due, written_write (hn n rfl), buffer_write]
  | take n ev rest queued =>
    have hwritten : (s.modify n fun st => { st with buffer := rest }).written n = s.written n :=
      written_modify_of fun _ => rfl
    simp [Handler.due, hwritten, buffer_pop (hn n rfl), queued]
  | write n ev =>
    simp only [Handler.due, written_write (hn n rfl), buffer_write, append_assoc,
      singleton_append, prefix_rfl]
  | leave g n serves => exact Handler.written_due serves
  | detach n => exact prefix_rfl

end Closed

/-- No stream has more to write than at some moment after `close`. -/
structure Draining (w₀ w : Pool Hub Handler) : Prop where
  wired : Wired w
  due : System.Holds (fun s => s.session.closed = true ∧ s.sent = w₀.shared.sent)
    (fun i s g => g.due s <+: dueAt w₀ i) w

theorem Draining.act {w₀ : Pool Hub Handler} (h : Draining w₀ w) (a : Act StreamCall Ready) :
    Draining w₀ (streams.act w a) := by
  obtain ⟨hwired, hdue⟩ := h
  refine ⟨hwired.act a, Holds.act hdue ?_ ?_ ?_⟩
  · intro call _
    cases call <;> exact nil_prefix
  · intro i ready g _ hi
    have hturn := g.next_spec ready w.shared
    obtain ⟨hclosed, hsent⟩ := hturn.closed hdue.1.1
    refine ⟨⟨hclosed, hsent.trans hdue.1.2⟩, IsPrefix.trans ?_ (hdue.2 i g hi)⟩
    exact hturn.due hdue.1.1 (hwired.wired.2 i g hi) fun n hn => hwired.below hi hn
  · intro i ready g j other _ hi hj hne
    have hsame := Handler.due_aside (g := other) hdue.1.1 fun n hn =>
      hwired.aside (g.next_spec ready w.shared) hi hj hne hn
    rw [show streams.next ready w.shared g = g.next ready w.shared from rfl, hsame]
    exact hdue.2 j other hj

/-- A client that resumes with the last id it received gets consecutive events over all its
connections while it is never further behind than the replay buffer; one stream is attached at
a time; and after `close` nothing more is logged, and a stream only writes what it had left. -/
theorem stream_resumed (acts more : List (Act StreamCall Ready)) :
    (streams.Steps WithinReplay fresh acts →
      (streams.run fresh acts).shared.client.received <:+: (streams.run fresh acts).shared.sent ∧
      ∃ first, (streams.run fresh acts).shared.client.received.map (·.id) =
        List.range' first (streams.run fresh acts).shared.client.received.length) ∧
    (streams.run fresh acts).shared.session.subs.length ≤ 1 ∧
    ((streams.run fresh acts).shared.session.closed = true →
      (streams.run fresh (acts ++ more)).shared.sent = (streams.run fresh acts).shared.sent ∧
      ∀ (i : Nat) g n, (streams.run fresh (acts ++ more)).calls[i]? = some g → g.stream = some n →
        (streams.run fresh (acts ++ more)).shared.written n <+: dueAt (streams.run fresh acts) i) := by
  refine ⟨fun h => ?_, (wired_run acts).wired.1.alone, fun hclosed => ?_⟩
  · obtain ⟨-, hsound, -⟩ := Steps.run_induction (P := Resumed) (fun _ _ hw hok => hw.act hok) h
      ⟨wired_fresh, ⟨rfl, rfl, infix_refl []⟩, nofun⟩
    have hreceived := IsInfix.trans (prefix_append _ _).isInfix hsound.got
    exact ⟨hreceived, ids_of_infix hsound.ids hreceived⟩
  · have hdraining := run_induction (P := Draining (streams.run fresh acts)) (fun _ a h => h.act a)
      ⟨wired_run acts, ⟨hclosed, rfl⟩, fun i g hi => by simp [dueAt, hi]⟩ more
    rw [run_append]
    refine ⟨hdraining.due.1.2, fun i g n hi hn => ?_⟩
    exact (Handler.written_due hn).trans (hdraining.due.2 i g hi)

/-- The client receives an event, loses its stream before the second and resumes; then the
session is closed. -/
def resumedOnce : List (Act StreamCall Ready) :=
  [.start (.broadcast (some [1])), .step 0 .channel, .start .connect, .step 1 .channel,
   .step 1 .channel, .step 1 .channel, .start .receive, .step 2 .channel,
   .start (.broadcast (some [2])), .step 3 .channel, .start .disconnect, .step 4 .channel,
   .step 1 .channel, .step 1 .done, .step 1 .channel, .start .connect, .step 5 .channel,
   .step 5 .channel, .step 5 .channel, .start .receive, .step 6 .channel, .start .close,
   .step 7 .channel]

theorem stream_resumed_resumedOnce :
    streams.Steps WithinReplay fresh resumedOnce ∧
    (streams.run fresh resumedOnce).shared.client.received = [⟨1, [1]⟩, ⟨2, [2]⟩] ∧
    (∃ first, (streams.run fresh resumedOnce).shared.client.received.map (·.id) =
      List.range' first (streams.run fresh resumedOnce).shared.client.received.length) ∧
    (streams.run fresh resumedOnce).shared.session.closed = true ∧
    (streams.run fresh (resumedOnce ++ [.start .connect])).shared.sent =
      (streams.run fresh resumedOnce).shared.sent := by
  have hsteps : streams.Steps WithinReplay fresh resumedOnce := by decide +kernel
  have hclosed : (streams.run fresh resumedOnce).shared.session.closed = true := by decide +kernel
  have hresumed := stream_resumed resumedOnce [.start .connect]
  exact ⟨hsteps, by decide +kernel, (hresumed.1 hsteps).2, hclosed, (hresumed.2.2 hclosed).1⟩

/-- An event is in the channel of the client's stream when the session is closed. -/
def closedWithEvent : List (Act StreamCall Ready) :=
  [.start .connect, .step 0 .channel, .step 0 .channel, .step 0 .channel,
   .start (.broadcast (some [])), .step 1 .channel, .start .close, .step 2 .channel]

theorem delivered_after_close :
    (streams.run fresh closedWithEvent).shared.session.closed = true ∧
    (streams.run fresh closedWithEvent).shared.client.received = [] ∧
    (streams.run fresh (closedWithEvent ++ [.step 0 .channel, .step 0 .channel, .start .receive,
      .step 3 .channel])).shared.client.received = [⟨1, []⟩] := by
  decide +kernel

end MockAgents.Mcp
