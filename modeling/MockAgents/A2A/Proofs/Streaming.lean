import MockAgents.A2A.Proofs.Terminal
/-!
# Streamed events and the stored task

`StreamResults` builds its events beside the task that is stored.  The two agree when the
client names its message, names the context of the task it continues, and the history has
room for the turn.
-/

namespace MockAgents.A2A

open Lib Lib.Maps List Option AList

variable {D : Type}
variable {α : Type}

/-! ## What encodes -/

theorem isSome_mapM {β : Type} (f : α → Option β) (l : List α) :
    (l.mapM f).isSome ↔ ∀ a ∈ l, (f a).isSome := by
  induction l with
  | nil => simp
  | cons a l ih =>
    rw [forall_mem_cons, ← ih, mapM_cons]
    cases f a <;> cases l.mapM f <;> simp

def Encodes (env : Env D) (parts : Option (List (Part D))) : Prop :=
  (marshalParts env.marshalData parts).isSome

instance (env : Env D) (parts : Option (List (Part D))) : Decidable (Encodes env parts) := by
  unfold Encodes
  infer_instance

theorem Message.isSome_marshal (env : Env D) (m : Message D) :
    (m.marshal env.marshalData).isSome ↔ Encodes env m.parts := by
  unfold Message.marshal Encodes
  cases marshalParts env.marshalData m.parts <;> simp

theorem Artifact.isSome_marshal (env : Env D) (a : Artifact D) :
    (a.marshal env.marshalData).isSome ↔ Encodes env a.parts := by
  unfold Artifact.marshal Encodes
  cases marshalParts env.marshalData a.parts <;> simp

theorem TaskStatus.isSome_marshal (env : Env D) (s : TaskStatus D) :
    (s.marshal env.marshalData).isSome ↔ ∀ m ∈ s.message, Encodes env m.parts := by
  unfold TaskStatus.marshal
  cases hm : s.message with
  | none => simp
  | some m =>
    have hmessage := m.isSome_marshal env
    cases hmarshal : m.marshal env.marshalData with
    | none | some =>
      simpa [hmarshal] using hmessage

theorem Task.isSome_marshal (env : Env D) (t : Task D) :
    (t.marshal env.marshalData).isSome ↔ (∀ m ∈ t.status.message, Encodes env m.parts) ∧
      (∀ a ∈ t.artifacts, Encodes env a.parts) ∧ ∀ m ∈ t.history, Encodes env m.parts := by
  have hstatus := t.status.isSome_marshal env
  have hartifacts : (t.artifacts.mapM (Artifact.marshal env.marshalData)).isSome ↔
      ∀ a ∈ t.artifacts, Encodes env a.parts := by
    rw [isSome_mapM]
    exact forall₂_congr fun a _ => a.isSome_marshal env
  have hhistory : (t.history.mapM (Message.marshal env.marshalData)).isSome ↔
      ∀ m ∈ t.history, Encodes env m.parts := by
    rw [isSome_mapM]
    exact forall₂_congr fun m _ => m.isSome_marshal env
  rw [← hstatus, ← hartifacts, ← hhistory]
  unfold Task.marshal
  cases t.status.marshal env.marshalData with
  | none => simp
  | some _ =>
    cases t.artifacts.mapM (Artifact.marshal env.marshalData) with
    | none => simp
    | some _ => cases t.history.mapM (Message.marshal env.marshalData) <;> simp

/-! ## The stored turn -/

/-- What a turn goes on from: the id, context, history and artifacts of its task. -/
structure Origin (D : Type) where
  taskID : String
  contextID : String
  history : List (Message D)
  artifacts : List (Artifact D)

namespace Server

/-- A new task, or the next turn of a stored one, with the count of minted ids. -/
def origins (s : Server D) (p : MessageSendParams D) (contextID : String) : Option (Nat × Origin D) :=
  if p.taskID = "" then some (s.seq + 1, ⟨taskName (s.seq + 1), contextID, [], []⟩)
  else (s.tasks.lookup p.taskID).map fun prior =>
    (s.seq, ⟨p.taskID, prior.contextID, prior.history, prior.artifacts⟩)

/-- A transition that succeeds stores the turn it built, with a new deadline. -/
theorem transition_ok {env : Env D} {r : Readings} {id : Bytes} {s s' : Server D}
    {p : MessageSendParams D} {parts : List (Part D)} {state contextID : String} {task : Task D}
    (h : s.transition env r id p parts state contextID = (s', .ok task)) :
    ∃ k o, (s.pruneExpired r.prune).origins p contextID = some (k, o) ∧
      (p.taskID = "" ∨ p.contextID = "" ∨ p.contextID = o.contextID) ∧
      task = (((s.pruneExpired r.prune).withSeq k).nextTask env r p parts state o.taskID o.contextID
        o.history o.artifacts).2 ∧
      s'.tasks.lookup o.taskID = some task ∧
      s'.taskExpiry.lookup o.taskID = some (r.expire + (s.pruneExpired r.prune).taskTTL) ∧
      s'.seq = k + 3 := by
  have hcommit : ∀ {b : Server D} {t : Task D}, b.commit env r id t = (s', .ok task) →
      t = task ∧ s' = b.store t (t.encodedLen env.marshalData) (r.expire + b.taskTTL) := by
    intro b t hb
    simp only [commit] at hb
    split at hb
    · cases hb
    · cases hb
      exact ⟨rfl, rfl⟩
  unfold transition at h
  simp only at h
  split at h
  next hid =>
    obtain ⟨rfl, rfl⟩ := hcommit h
    refine ⟨(s.pruneExpired r.prune).seq + 1, _, if_pos hid, .inl hid, rfl, ?_, ?_, rfl⟩
    · exact lookup_insert _
    · exact lookup_insert _
  next hid =>
    split at h
    · cases h
    next prior hprior =>
      split at h
      · cases h
      · split at h
        · cases h
        next hcontext =>
          obtain ⟨rfl, rfl⟩ := hcommit h
          refine ⟨(s.pruneExpired r.prune).seq, ⟨p.taskID, prior.contextID, prior.history,
            prior.artifacts⟩, ?_, .inr ?_, rfl, ?_, ?_, rfl⟩
          · rw [origins, if_neg hid, hprior]
            rfl
          · simpa [or_iff_not_imp_left] using hcontext
          · exact lookup_insert _
          · exact lookup_insert _

/-- The history of a turn, where it has room for the turn's two messages. -/
theorem lastHistory_eq {max : Nat} (h : 2 ≤ max) (history : List (Message D)) (user agent : Message D) :
    (if max < (history ++ [user, agent]).length then
        (history ++ [user, agent]).drop ((history ++ [user, agent]).length - max)
      else history ++ [user, agent]) =
      history.drop (history.length + 2 - max) ++ [user, agent] := by
  rw [length_append]
  show (if max < history.length + 2 then _ else _) = _
  split
  · exact drop_append_of_le_length (by show history.length + 2 - max ≤ _; omega)
  · rw [show history.length + 2 - max = 0 by omega, drop_zero]

end Server

def Task.userMessage (t : Task D) : Option (Message D) := t.history.dropLast.getLast?

namespace Server

section Turn
variable (env : Env D) (r : Readings) (s : Server D) (p : MessageSendParams D)
  (parts : List (Part D)) (state : String) (o : Origin D)

def storedMessage : Message D :=
  ⟨"user", p.parts, orDefault p.messageID (s.nextID "msg").2, "message", o.taskID, o.contextID⟩

def agentMessage : Message D :=
  ⟨"agent", some parts, ((s.nextID "msg").1.nextID "msg").2, "message", o.taskID, o.contextID⟩

theorem nextTask_history (h : 2 ≤ s.maxHistory) :
    (s.nextTask env r p parts state o.taskID o.contextID o.history o.artifacts).2.history =
      o.history.drop (o.history.length + 2 - s.maxHistory) ++
        [storedMessage s p o, agentMessage s parts o] :=
  lastHistory_eq h _ _ _

theorem nextTask_userMessage_none (h : s.maxHistory < 2) :
    (s.nextTask env r p parts state o.taskID o.contextID o.history o.artifacts).2.userMessage =
      none := by
  have hlength := (s.nextTask_spec env r p parts state o.taskID o.contextID o.history
    o.artifacts).2.2
  unfold Task.userMessage
  rw [getLast?_eq_none_iff, ← length_eq_zero_iff, length_dropLast]
  omega

/-- The stored turn has an encoding when the message, the reply and what is kept of the task
have one. -/
theorem nextTask_isSome_marshal (h : 2 ≤ s.maxHistory) :
    ((s.nextTask env r p parts state o.taskID o.contextID o.history o.artifacts).2.marshal
        env.marshalData).isSome ↔
      Encodes env p.parts ∧ Encodes env (some parts) ∧ (∀ a ∈ o.artifacts, Encodes env a.parts) ∧
        ∀ m ∈ o.history.drop (o.history.length + 2 - s.maxHistory), Encodes env m.parts := by
  rw [Task.isSome_marshal, nextTask_history env r s p parts state o h]
  simp only [nextTask, mem_def, some.injEq, forall_eq', forall_mem_append,
    forall_mem_cons, not_mem_nil, false_imp_iff, implies_true, and_true]
  constructor
  · rintro ⟨hagent, ⟨hartifacts, -⟩, hhistory, huser, -⟩
    exact ⟨huser, hagent, hartifacts, hhistory⟩
  · rintro ⟨huser, hagent, hartifacts, hhistory⟩
    exact ⟨hagent, ⟨hartifacts, hagent⟩, hhistory, huser, hagent⟩

end Turn

end Server

/-! ## Events -/

def Event.taskID : Event D → String
  | .task t => t.id
  | .statusUpdate taskID .. | .artifactUpdate taskID .. => taskID

def Event.contextID : Event D → String
  | .task t => t.contextID
  | .statusUpdate _ contextID .. | .artifactUpdate _ contextID .. => contextID

def shownMessage : List (Event D) → Option (Message D)
  | .task t :: _ => t.history.head?
  | _ => none

/-- Events carry the id and the context of a task, and show the message in its history. -/
def EventsOf (task : Task D) (events : List (Event D)) : Prop :=
  (∀ ev ∈ events, ev.taskID = task.id ∧ ev.contextID = task.contextID) ∧
    (shownMessage events).isSome ∧ task.userMessage = shownMessage events

/-- Events agree with the task that an answer returns. -/
inductive Agrees (answer : RpcResponse D) (events : List (Event D)) : Prop
  | intro (task : Task D) (hresult : answer.result = some (.task task)) (hevents : EventsOf task events)

theorem agrees_iff {answer : RpcResponse D} {task : Task D}
    (h : answer.result = some (.task task)) (events : List (Event D)) :
    Agrees answer events ↔ EventsOf task events := by
  constructor
  · rintro ⟨task', hresult, hevents⟩
    obtain rfl : task = task' := by simpa using h.symm.trans hresult
    exact hevents
  · exact .intro task h

instance [DecidableEq D] (answer : RpcResponse D) (events : List (Event D)) :
    Decidable (Agrees answer events) :=
  match h : answer.result with
  | some (.task task) =>
    have : Decidable (EventsOf task events) := by unfold EventsOf; infer_instance
    decidable_of_iff _ (agrees_iff h events).symm
  | some (.message m) => .isFalse fun ⟨task, hresult, _⟩ => by simp [h] at hresult
  | none => .isFalse fun ⟨task, hresult, _⟩ => by simp [h] at hresult

namespace Server

/-- The client names its message and the context of a task it continues, the history has room
for the turn, and all that is stored has an encoding. -/
structure StreamsWell (env : Env D) (s : Server D) (r : Readings) (p : MessageSendParams D) :
    Prop where
  message : p.messageID ≠ ""
  context : p.taskID = "" ∨ p.contextID ≠ "" ∨
    ∃ prior ∈ (s.pruneExpired r.prune).tasks.lookup p.taskID, prior.contextID = (s.nextID "ctx").2
  room : 2 ≤ s.maxHistory
  parts : Encodes env p.parts
  reply : Encodes env (some (s.replyFor (partsText p.parts)).parts)
  prior : p.taskID ≠ "" → ∀ prior ∈ (s.pruneExpired r.prune).tasks.lookup p.taskID,
    (∀ a ∈ prior.artifacts, Encodes env a.parts) ∧
      ∀ m ∈ prior.history.drop (prior.history.length + 2 - s.maxHistory), Encodes env m.parts

theorem contextFor_limits (s : Server D) (contextID : String) (now : Int) :
    ((s.contextFor contextID).1.pruneExpired now).maxHistory = s.maxHistory ∧
      ((s.contextFor contextID).1.pruneExpired now).taskTTL = s.taskTTL := by
  obtain ⟨a, ha, hseq⟩ := s.contextFor_eq contextID
  rw [hseq, pruneExpired_withSeq]
  exact pruneExpired_induction
    (P := fun s' => s'.maxHistory = s.maxHistory ∧ s'.taskTTL = s.taskTTL) (fun _ _ h => h) ⟨rfl, rfl⟩ now

variable {r : Readings} {req : RpcRequest D} {s : Server D} {p : MessageSendParams D}

/-- A stream that succeeds stores a turn and shows the message under the stream's own context,
with an id minted after the turn's. -/
theorem streamResults_ok {env : Env D} {s' : Server D}
    (hp : req.messageParams = .ok p) {events : List (Event D)}
    (h : s.streamResults env r req = (s', .ok events)) :
    ∃ (k : Nat) (o : Origin D) (b : Server D) (task : Task D) (msgID : String),
      ((s.contextFor p.contextID).1.pruneExpired r.prune).origins p
        (s.contextFor p.contextID).2 = some (k, o) ∧
      (p.taskID = "" ∨ p.contextID = "" ∨ p.contextID = o.contextID) ∧
      b.maxHistory = s.maxHistory ∧
      task = (b.nextTask env r p (s.replyFor (partsText p.parts)).parts
        (s.replyFor (partsText p.parts)).state o.taskID o.contextID o.history o.artifacts).2 ∧
      s'.tasks.lookup o.taskID = some task ∧
      s'.taskExpiry.lookup o.taskID = some (r.expire + s.taskTTL) ∧
      (b.nextID "msg").2 ≠ msgID ∧
      (∀ ev ∈ events, ev.taskID = o.taskID ∧ ev.contextID = (s.contextFor p.contextID).2) ∧
      events.head?.map Event.taskID = some o.taskID ∧
      shownMessage events = some ⟨"user", p.parts, orDefault p.messageID msgID, "message", o.taskID,
        (s.contextFor p.contextID).2⟩ := by
  obtain ⟨hmax, httl⟩ := s.contextFor_limits p.contextID r.prune
  unfold streamResults at h
  split at h
  · cases h
  · rw [hp] at h
    simp only at h
    split at h
    next s₁ errResp hout => cases h
    next s₁ task hout =>
      obtain ⟨k, o, horigins, hcontext, htask, hlookup, hexpiry, hseq⟩ := transition_ok hout
      have hid : task.id = o.taskID := by rw [htask]; rfl
      have hmsg : ((((s.contextFor p.contextID).1.pruneExpired r.prune).withSeq k).nextID "msg").2 ≠
          (s₁.nextID "msg").2 := fun heq => by
        have hsucc := Nat.repr_inj.mp ((String.append_right_inj _).mp heq)
        rw [hseq] at hsucc
        change k + 1 = k + 3 + 1 at hsucc
        omega
      split at h
      next agentMsg artifact hagent hartifact =>
        cases h
        refine ⟨k, o, ((s.contextFor p.contextID).1.pruneExpired r.prune).withSeq k, task,
          (s₁.nextID "msg").2, horigins, hcontext, hmax, htask, hlookup, httl ▸ hexpiry, hmsg, ?_,
          by rw [← hid]; rfl, by rw [← hid]; rfl⟩
        intro ev hev
        simp only [eventsOf, mem_cons, not_mem_nil, or_false] at hev
        rcases hev with rfl | rfl | rfl | rfl <;> exact ⟨hid, rfl⟩
      next hnone =>
        -- the stored task has a status message and an artifact
        have hmessage : task.status.message = some (agentMessage
            (((s.contextFor p.contextID).1.pruneExpired r.prune).withSeq k)
            (s.replyFor (partsText p.parts)).parts o) := by
          rw [htask]
          rfl
        have hlast : task.artifacts.getLast?.isSome := by
          rw [htask]
          simp [nextTask]
        obtain ⟨artifact, hartifact⟩ := isSome_iff_exists.mp hlast
        exact absurd hartifact (hnone _ _ hmessage)

theorem orDefault_eq_iff {v a b : String} (h : a ≠ b) : orDefault v a = orDefault v b ↔ v ≠ "" := by
  unfold orDefault
  split
  next hv => simp [hv]
  next hv => simpa [hv] using h

/-- What `tasks/get` answers before the deadline of a task. -/
theorem handleTasksGet_live (env : Env D)
    {id : String} (hreq : req.taskParams = .ok ⟨id⟩) {task : Task D}
    (hlookup : s.tasks.lookup id = some task) (hlive : ¬ s.Expired r.prune id) :
    (s.handleTasksGet env r req).2 = newResult req.id (.task (cloneTask env task)) := by
  have hstays : (s.pruneExpired r.prune).tasks.lookup id = some task :=
    (sameAt_pruneExpired hlive).tasks.trans hlookup
  simp only [handleTasksGet, hreq, hstays]

section
variable {env : Env D} {s : Server D} {r : Readings} {p : MessageSendParams D} {k : Nat} {o : Origin D}
  (horigins : ((s.contextFor p.contextID).1.pruneExpired r.prune).origins p
    (s.contextFor p.contextID).2 = some (k, o))
include horigins

theorem origin_cases :
    (p.taskID = "" ∧ o = ⟨o.taskID, (s.contextFor p.contextID).2, [], []⟩) ∨
      p.taskID ≠ "" ∧ ∃ prior, (s.pruneExpired r.prune).tasks.lookup p.taskID = some prior ∧
        o = ⟨p.taskID, prior.contextID, prior.history, prior.artifacts⟩ := by
  obtain ⟨a, ha, hseq⟩ := s.contextFor_eq p.contextID
  rw [hseq, pruneExpired_withSeq] at horigins
  unfold origins at horigins
  split at horigins
  next hnew =>
    cases horigins
    exact .inl ⟨hnew, rfl⟩
  next hnew =>
    obtain ⟨prior, hprior, heq⟩ := map_eq_some_iff.mp horigins
    cases heq
    exact .inr ⟨hnew, prior, hprior, rfl⟩

theorem context_eq_iff (hcontext : p.taskID = "" ∨ p.contextID = "" ∨ p.contextID = o.contextID) :
    (s.contextFor p.contextID).2 = o.contextID ↔ p.taskID = "" ∨ p.contextID ≠ "" ∨
      ∃ prior ∈ (s.pruneExpired r.prune).tasks.lookup p.taskID,
        prior.contextID = (s.nextID "ctx").2 := by
  rcases origin_cases horigins with ⟨hnew, ho⟩ | ⟨hnew, prior, hprior, rfl⟩
  · rw [ho]
    simp [hnew]
  · by_cases hempty : p.contextID = ""
    · rw [contextFor]
      simp [hnew, hempty, hprior, eq_comm]
    · rw [contextFor]
      simp only [hempty, not_false_eq_true, ne_eq, true_or, or_true, iff_true]
      exact (hcontext.resolve_left hnew).resolve_left hempty

end

theorem origin_taskID_ne {contextID : String} {k : Nat}
    {o : Origin D} (h : s.origins p contextID = some (k, o)) : o.taskID ≠ "" := by
  unfold origins at h
  split at h
  · cases h
    simp [taskName]
  next hnew =>
    obtain ⟨prior, -, heq⟩ := map_eq_some_iff.mp h
    cases heq
    exact hnew

/-- **The events of a stream agree with the stored task** exactly when the client names its
message and the context of the task it continues, the history has room for the turn and all of
the task has an encoding. -/
theorem stream_agrees_iff (env : Env D) {s s' : Server D} {r r' : Readings} {req get : RpcRequest D}
    {p : MessageSendParams D} (hp : req.messageParams = .ok p) {events : List (Event D)}
    (hstream : s.streamResults env r req = (s', .ok events)) (id : String)
    (hid : events.head?.map Event.taskID = some id) (hget : get.taskParams = .ok ⟨id⟩)
    (hlive : r'.prune < r.expire + s.taskTTL)
    (hread : ∀ task data, s'.tasks.lookup id = some task →
      task.marshal env.marshalData = some data → env.unmarshalTask data = task) :
    Agrees (s'.handleTasksGet env r' get).2 events ↔ StreamsWell env s r p := by
  obtain ⟨k, o, b, task, msgID, horigins, hcontext, hmax, htask, hlookup, hexpiry, hmsg, hevents,
    hhead, hshown⟩ := streamResults_ok hp hstream
  obtain rfl : o.taskID = id := some.inj (hhead.symm.trans hid)
  have hnotExpired : ¬ s'.Expired r'.prune o.taskID := by
    rintro ⟨t, ht, hle⟩
    rw [hexpiry] at ht
    obtain rfl := some.inj ht
    omega
  have hcontexts := context_eq_iff horigins hcontext
  have hencodes : 2 ≤ s.maxHistory → ((task.marshal env.marshalData).isSome ↔ Encodes env p.parts ∧
      Encodes env (some (s.replyFor (partsText p.parts)).parts) ∧
      (p.taskID ≠ "" → ∀ prior ∈ (s.pruneExpired r.prune).tasks.lookup p.taskID,
        (∀ a ∈ prior.artifacts, Encodes env a.parts) ∧
          ∀ m ∈ prior.history.drop (prior.history.length + 2 - s.maxHistory),
            Encodes env m.parts)) := by
    intro hroom
    rw [htask, nextTask_isSome_marshal env r b p _ _ o (by omega), hmax]
    -- a new task has nothing to encode but the turn, a continued one what is kept of it
    rcases origin_cases horigins with ⟨hnew, ho⟩ | ⟨hnew, prior, hprior, rfl⟩
    · rw [ho]
      simp [hnew]
    · simp [hnew, hprior]
  rw [handleTasksGet_live env hget hlookup hnotExpired]
  rw [agrees_iff rfl]
  cases hmarshal : task.marshal env.marshalData with
  | none =>
    -- without an encoding, the answer is the zero task
    rw [cloneTask, hmarshal]
    constructor
    · intro hzero
      obtain ⟨ev, hev, hname⟩ := map_eq_some_iff.mp hhead
      have hevID := (hevents ev (mem_of_mem_head? hev)).1
      have hzeroID := (hzero.1 ev (mem_of_mem_head? hev)).1
      exact absurd (hevID.symm.trans hzeroID) (origin_taskID_ne horigins)
    · intro hwell
      have hsome := (hencodes hwell.room).mpr ⟨hwell.parts, hwell.reply, hwell.prior⟩
      rw [hmarshal] at hsome
      cases hsome
  | some data =>
    have hclone : cloneTask env task = task := by
      rw [cloneTask, hmarshal]
      exact hread task data hlookup hmarshal
    rw [hclone, EventsOf, hshown]
    have hids : (∀ ev ∈ events, ev.taskID = task.id ∧ ev.contextID = task.contextID) ↔
        (s.contextFor p.contextID).2 = o.contextID := by
      have hname : task.id = o.taskID ∧ task.contextID = o.contextID := by
        rw [htask]
        exact ⟨rfl, rfl⟩
      obtain ⟨ev, hev, -⟩ := map_eq_some_iff.mp hhead
      constructor
      · intro hall
        have hmem := mem_of_mem_head? hev
        rw [← (hevents ev hmem).2, (hall ev hmem).2, hname.2]
      · intro heq ev hev
        rw [(hevents ev hev).1, (hevents ev hev).2, hname.1, hname.2]
        exact ⟨rfl, heq⟩
    rw [hids]
    by_cases hroom : 2 ≤ s.maxHistory
    · have huser : task.userMessage = some (storedMessage b p o) := by
        rw [htask, Task.userMessage, nextTask_history env r b p _ _ o (by omega)]
        simp
      have hencoded := (hencodes hroom).mp (by rw [hmarshal]; rfl)
      rw [huser]
      constructor
      · rintro ⟨hsame, -, hmessage⟩
        have hnamed : orDefault p.messageID (b.nextID "msg").2 = orDefault p.messageID msgID :=
          congrArg Message.messageID (some.inj hmessage)
        exact ⟨(orDefault_eq_iff hmsg).mp hnamed, hcontexts.mp hsame, hroom, hencoded.1, hencoded.2.1,
          hencoded.2.2⟩
      · intro hwell
        have hsame := hcontexts.mpr hwell.context
        refine ⟨hsame, rfl, ?_⟩
        rw [storedMessage, (orDefault_eq_iff hmsg).mpr hwell.message, hsame]
    · have hnone : task.userMessage = none := by
        rw [htask, nextTask_userMessage_none env r b p _ _ o (by omega)]
      rw [hnone]
      constructor
      · rintro ⟨-, -, hmessage⟩
        cases hmessage
      · exact fun hwell => absurd hwell.room hroom

end Server

def streamHello (messageID contextID taskID : String) : RpcRequest Empty where
  jsonrpc := "2.0"
  id := Utf8.bytes "1"
  method := "message/stream"
  messageParams := .ok ⟨some [⟨"text", "hi", none, none⟩], messageID, contextID, taskID⟩
  taskParams := .error ""

def getFirst : RpcRequest Empty where
  jsonrpc := "2.0"
  id := Utf8.bytes "2"
  method := "tasks/get"
  messageParams := .error ""
  taskParams := .ok ⟨"task-1"⟩

/-- The environment in which the text of one task is read back. -/
def readsBack (task : Task Empty) : Env Empty := { plainEnv with unmarshalTask := fun _ => task }

theorem readsBack_unmarshalTask (task : Task Empty) (data : Bytes) :
    (readsBack task).unmarshalTask data = task := rfl

def fresh : Server Empty := newServer atWork ⟨10, 4000, 4, 100⟩

def firstTask (s : Server Empty) (req : RpcRequest Empty) : Task Empty :=
  ((s.streamResults plainEnv ⟨0, 0, 0, 0⟩ req).1.tasks.lookup "task-1").getD Task.zero

def streamed (s : Server Empty) (req : RpcRequest Empty) :
    Server Empty × Except (RpcResponse Empty) (List (Event Empty)) :=
  s.streamResults (readsBack (firstTask s req)) ⟨0, 0, 0, 0⟩ req

def answerAfter (s : Server Empty) (req : RpcRequest Empty) : RpcResponse Empty :=
  ((streamed s req).1.handleTasksGet (readsBack (firstTask s req)) ⟨1, 1, 1, 1⟩ getFirst).2

def eventsFrom (s : Server Empty) (req : RpcRequest Empty) : List (Event Empty) :=
  (streamed s req).2.toOption.getD []

theorem eq_ok_of_isSome {σ ε : Type} {x : σ × Except ε α} (h : x.2.toOption.isSome) (a : α) :
    x = (x.1, .ok (x.2.toOption.getD a)) := by
  obtain ⟨s, out⟩ := x
  cases out with
  | error e => cases h
  | ok b => rfl

theorem stream_agrees_named :
    Agrees (answerAfter fresh (streamHello "m1" "c1" "")) (eventsFrom fresh (streamHello "m1" "c1" "")) := by
  have hok : (streamed fresh (streamHello "m1" "c1" "")).2.toOption.isSome := by decide +kernel
  have hparams : (streamHello "m1" "c1" "").messageParams =
      .ok ⟨some [⟨"text", "hi", none, none⟩], "m1", "c1", ""⟩ := rfl
  have hget : getFirst.taskParams = .ok ⟨"task-1"⟩ := rfl
  have hhead : (eventsFrom fresh (streamHello "m1" "c1" "")).head?.map Event.taskID =
      some "task-1" := by decide +kernel
  have hlive : (⟨1, 1, 1, 1⟩ : Readings).prune < (⟨0, 0, 0, 0⟩ : Readings).expire + fresh.taskTTL := by
    decide
  have hstored : (streamed fresh (streamHello "m1" "c1" "")).1.tasks.lookup "task-1" =
      some (firstTask fresh (streamHello "m1" "c1" "")) := by decide +kernel
  have hwell : Server.StreamsWell (readsBack (firstTask fresh (streamHello "m1" "c1" ""))) fresh
      ⟨0, 0, 0, 0⟩ ⟨some [⟨"text", "hi", none, none⟩], "m1", "c1", ""⟩ :=
    ⟨by decide, .inl rfl, by decide, by decide +kernel, by decide +kernel, fun hne => absurd rfl hne⟩
  have hout := eq_ok_of_isSome hok []
  unfold answerAfter eventsFrom at *
  generalize hstreamed : streamed fresh (streamHello "m1" "c1" "") = out at *
  unfold streamed at hstreamed
  have hread : ∀ data, (readsBack (firstTask fresh (streamHello "m1" "c1" ""))).unmarshalTask data =
      firstTask fresh (streamHello "m1" "c1" "") := readsBack_unmarshalTask _
  generalize readsBack (firstTask fresh (streamHello "m1" "c1" "")) = env at *
  refine (Server.stream_agrees_iff env hparams (hstreamed.trans hout) "task-1" hhead hget hlive
    ?_).mpr hwell
  intro task data hlookup _
  rw [hstored] at hlookup
  exact (hread data).trans (some.inj hlookup)

/-- A stream without a message id, and a stream that continues a task without its context. -/
theorem stream_disagrees :
    ¬ Agrees (answerAfter fresh (streamHello "" "c1" "")) (eventsFrom fresh (streamHello "" "c1" "")) ∧
      ¬ Agrees (answerAfter (fresh.run plainEnv [.rpc ⟨0, 0, 0, 0⟩ sendHello])
          (streamHello "m2" "" "task-1"))
        (eventsFrom (fresh.run plainEnv [.rpc ⟨0, 0, 0, 0⟩ sendHello])
          (streamHello "m2" "" "task-1")) := by
  refine ⟨?_, ?_⟩ <;> decide +kernel

end MockAgents.A2A
