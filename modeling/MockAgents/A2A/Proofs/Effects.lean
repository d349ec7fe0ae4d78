import MockAgents.A2A.Server
import MockAgents.Lib.Maps
/-!
# What an operation does to the store

An operation leaves the store alone, removes expired tasks, or removes them and then stores
one task: a new one, the next turn of one that is not terminal, or a canceled one.  A
rejected operation stores nothing.
-/

namespace MockAgents.A2A

open Lib Lib.Maps List AList

variable {D : Type}

def Op.cancels : Op D → Option String
  | .rpc _ req =>
    if req.jsonrpc = "2.0" ∧ req.method = "tasks/cancel" then req.taskParams.toOption.map (·.id)
    else none
  | .stream _ _ => none

namespace Server

/-! ## Removing expired tasks -/

def Expired (s : Server D) (now : Int) (id : String) : Prop := ∃ t ∈ s.taskExpiry.lookup id, t ≤ now

instance (s : Server D) (now : Int) (id : String) : Decidable (s.Expired now id) := by
  unfold Expired
  infer_instance

structure SameAt (id : String) (s s' : Server D) : Prop where
  tasks : s'.tasks.lookup id = s.tasks.lookup id
  bytes : s'.taskBytes.lookup id = s.taskBytes.lookup id
  expiry : s'.taskExpiry.lookup id = s.taskExpiry.lookup id

theorem SameAt.trans {id : String} {s s' s'' : Server D} (h : SameAt id s s')
    (h' : SameAt id s' s'') : SameAt id s s'' :=
  ⟨h'.tasks.trans h.tasks, h'.bytes.trans h.bytes, h'.expiry.trans h.expiry⟩

/-- What every removal of a task keeps holds after the loop. -/
theorem pruneExpired_induction {P : Server D → Prop} (hforget : ∀ s id, P s → P (s.forget id))
    {s : Server D} (h : P s) (now : Int) : P (s.pruneExpired now) := by
  refine foldlRecOn _ _ h fun s hs e _ => ?_
  split
  · exact hforget s e.1 hs
  · exact hs

theorem sameAt_pruneExpired {s : Server D} {now : Int} {id : String} (h : ¬ s.Expired now id) :
    SameAt id s (s.pruneExpired now) := by
  have hlive : ∀ e ∈ s.taskExpiry.entries, e.1 = id → ¬ e.2 ≤ now := by
    rintro ⟨id', t⟩ he rfl hle
    exact h ⟨t, mem_lookup_iff.mpr he, hle⟩
  unfold pruneExpired
  -- the loop runs over the entries it started with, whatever it removes
  generalize s.taskExpiry.entries = entries at hlive
  clear h
  induction entries generalizing s with
  | nil => exact ⟨rfl, rfl, rfl⟩
  | cons e entries ih =>
    have hrest : ∀ e' ∈ entries, e'.1 = id → ¬ e'.2 ≤ now :=
      fun e' he' => hlive e' (mem_cons_of_mem e he')
    rw [foldl_cons]
    split
    next hle =>
      have hne : id ≠ e.1 := fun heq => hlive e mem_cons_self heq.symm hle
      exact SameAt.trans ⟨lookup_erase_ne hne, lookup_erase_ne hne, lookup_erase_ne hne⟩ (ih hrest)
    next => exact ih hrest

/-! ## The counter of ids -/

def withSeq (s : Server D) (seq : Nat) : Server D := { s with seq := seq }

theorem pruneExpired_withSeq (s : Server D) (seq : Nat) (now : Int) :
    (s.withSeq seq).pruneExpired now = (s.pruneExpired now).withSeq seq := by
  unfold pruneExpired
  show List.foldl _ (s.withSeq seq) s.taskExpiry.entries = _
  generalize s.taskExpiry.entries = entries
  induction entries generalizing s with
  | nil => rfl
  | cons e entries ih =>
    rw [foldl_cons, foldl_cons]
    split
    · exact ih (s.forget e.1)
    · exact ih s

theorem pruneExpired_seq (s : Server D) (now : Int) : (s.pruneExpired now).seq = s.seq :=
  pruneExpired_induction (P := fun s' => s'.seq = s.seq) (fun _ _ h => h) rfl now

theorem contextFor_eq (s : Server D) (contextID : String) :
    ∃ seq, s.seq ≤ seq ∧ (s.contextFor contextID).1 = s.withSeq seq := by
  unfold contextFor
  split
  · exact ⟨s.seq + 1, Nat.le_succ _, rfl⟩
  · exact ⟨s.seq, le_rfl, rfl⟩

/-! ## Effects -/

def taskName (k : Nat) : String := "task-" ++ toString k

/-- What an operation with some readings of the clock does, and whether it was accepted.  The
target is the task it asks to cancel. -/
inductive Effect (env : Env D) (r : Readings) (target : Option String) (s : Server D) :
    Bool → Server D → Prop
  | idle (accepted : Bool) (seq : Nat) (hseq : s.seq ≤ seq) : Effect env r target s accepted (s.withSeq seq)
  | pruned (accepted : Bool) (seq : Nat) (hseq : s.seq ≤ seq) :
      Effect env r target s accepted ((s.pruneExpired r.prune).withSeq seq)
  | committed (seq : Nat) (hseq : s.seq ≤ seq) (task : Task D)
      (hnew : (∃ k, s.seq < k ∧ k ≤ seq ∧ task.id = taskName k) ∨
        ∃ prior, (s.pruneExpired r.prune).tasks.lookup task.id = some prior ∧
          isTerminal prior.status.state = false)
      (hhistory : task.history.length ≤ (s.pruneExpired r.prune).maxHistory)
      (hfits : (s.pruneExpired r.prune).capacityExceeded task (task.encodedLen env.marshalData) =
        false) :
      Effect env r target s true (((s.pruneExpired r.prune).store task (task.encodedLen env.marshalData)
        (r.expire + (s.pruneExpired r.prune).taskTTL)).withSeq seq)
  | canceled (seq : Nat) (hseq : s.seq ≤ seq) (id : String) (htarget : target = some id) (task : Task D)
      (hlookup : (s.pruneExpired r.prune).tasks.lookup id = some task)
      (hopen : isTerminal task.status.state = false) :
      Effect env r target s true
        (({ s.pruneExpired r.prune with
            tasks := (s.pruneExpired r.prune).tasks.insert id (canceled env r task)
            taskExpiry := (s.pruneExpired r.prune).taskExpiry.insert id
              (r.expire + (s.pruneExpired r.prune).taskTTL) }.replaceAccounting env
          (canceled env r task)).withSeq seq)

theorem length_lastHistory (history : List (Message D)) (max : Nat) :
    (if max < history.length then history.drop (history.length - max) else history).length ≤ max := by
  split
  · rw [length_drop]
    omega
  · omega

theorem nextTask_spec (env : Env D) (r : Readings) (s : Server D) (p : MessageSendParams D)
    (parts : List (Part D)) (state taskID contextID : String) (history : List (Message D))
    (artifacts : List (Artifact D)) :
    (s.nextTask env r p parts state taskID contextID history artifacts).1 = s.withSeq (s.seq + 3) ∧
      (s.nextTask env r p parts state taskID contextID history artifacts).2.id = taskID ∧
      (s.nextTask env r p parts state taskID contextID history artifacts).2.history.length ≤
        s.maxHistory :=
  ⟨rfl, rfl, length_lastHistory _ _⟩

section
variable {env : Env D} {r : Readings} {target : Option String} {s s' : Server D} {accepted : Bool}
  {k : Nat} {β : Type}

/-- Ids minted before the operation's own work do not change its effect. -/
theorem Effect.of_withSeq (hk : s.seq ≤ k) (h : Effect env r target (s.withSeq k) accepted s') :
    Effect env r target s accepted s' := by
  cases h with
  | idle _ seq hseq => exact .idle accepted seq (hk.trans hseq)
  | pruned _ seq hseq =>
    rw [pruneExpired_withSeq]
    exact .pruned accepted seq (hk.trans hseq)
  | committed seq hseq task hnew hhistory hfits =>
    rw [pruneExpired_withSeq] at hnew hhistory hfits ⊢
    refine .committed seq (hk.trans hseq) task ?_ hhistory hfits
    rcases hnew with ⟨j, hlt, hle, hid⟩ | hprior
    · exact .inl ⟨j, Nat.lt_of_le_of_lt hk hlt, hle, hid⟩
    · exact .inr hprior
  | canceled seq hseq id htarget task hlookup hopen =>
    rw [pruneExpired_withSeq] at hlookup ⊢
    exact .canceled seq (hk.trans hseq) id htarget task hlookup hopen

theorem Effect.withSeq (h : Effect env r target s accepted s') (hk : s'.seq ≤ k) :
    Effect env r target s accepted (s'.withSeq k) := by
  cases h with
  | idle _ seq hseq => exact .idle accepted k (hseq.trans hk)
  | pruned _ seq hseq => exact .pruned accepted k (hseq.trans hk)
  | committed seq hseq task hnew hhistory hfits =>
    refine .committed k (hseq.trans hk) task ?_ hhistory hfits
    rcases hnew with ⟨j, hlt, hle, hid⟩ | hprior
    · exact .inl ⟨j, hlt, hle.trans hk, hid⟩
    · exact .inr hprior
  | canceled seq hseq id htarget task hlookup hopen =>
    exact .canceled k (hseq.trans hk) id htarget task hlookup hopen

theorem effect_self (accepted : Bool) : Effect env r target s accepted s :=
  .idle accepted s.seq le_rfl

theorem effect_pruneExpired (accepted : Bool) :
    Effect env r target s accepted (s.pruneExpired r.prune) := by
  have h : Effect env r target s accepted ((s.pruneExpired r.prune).withSeq s.seq) :=
    .pruned accepted s.seq le_rfl
  rwa [← s.pruneExpired_seq r.prune] at h

/-- An error that rejects the operation, or a result that accepts it. -/
inductive Answers (env : Env D) (r : Readings) (target : Option String) (s : Server D) :
    Server D × Except (RpcResponse D) β → Prop
  | rejected {s' : Server D} {resp : RpcResponse D} (herror : resp.error.isSome)
      (h : Effect env r target s false s') : Answers env r target s (s', .error resp)
  | accepted {s' : Server D} {x : β} (h : Effect env r target s true s') :
      Answers env r target s (s', .ok x)

/-- The task that is built is stored, or only the counter of ids has changed. -/
theorem commit_answers (id : Bytes) (seq : Nat) {task : Task D} (hseq : s.seq ≤ seq)
    (hnew : (∃ k, s.seq < k ∧ k ≤ seq ∧ task.id = taskName k) ∨
      ∃ prior, (s.pruneExpired r.prune).tasks.lookup task.id = some prior ∧
        isTerminal prior.status.state = false)
    (hhistory : task.history.length ≤ (s.pruneExpired r.prune).maxHistory) :
    Answers env r target s (((s.pruneExpired r.prune).withSeq seq).commit env r id task) := by
  simp only [commit]
  split
  · exact .rejected rfl (.pruned false seq hseq)
  next hfits =>
    exact .accepted (.committed seq hseq task hnew hhistory (Bool.eq_false_iff.mpr hfits))

theorem transition_answers (id : Bytes) (p : MessageSendParams D) (parts : List (Part D))
    (state contextID : String) :
    Answers env r target s (s.transition env r id p parts state contextID) := by
  have hseq := s.pruneExpired_seq r.prune
  simp only [transition]
  split
  · -- a new task, under a new id
    obtain ⟨hs, hid, hhistory⟩ := ((s.pruneExpired r.prune).withSeq (s.seq + 1)).nextTask_spec env r p
      parts state (taskName (s.seq + 1)) contextID [] []
    rw [nextID, hseq]
    exact commit_answers id (s.seq + 4) (by omega) (.inl ⟨s.seq + 1, by omega, by omega, hid⟩) hhistory
  next hid =>
    split
    · exact .rejected rfl (effect_pruneExpired false)
    next prior hprior =>
      split
      · exact .rejected rfl (effect_pruneExpired false)
      next hopen =>
        split
        · exact .rejected rfl (effect_pruneExpired false)
        · -- the next turn of a task that is not terminal
          obtain ⟨hs, hid, hhistory⟩ := (s.pruneExpired r.prune).nextTask_spec env r p parts state
            p.taskID prior.contextID prior.history prior.artifacts
          rw [hs, hseq]
          exact commit_answers id (s.seq + 3) (by omega)
            (.inr ⟨prior, by rw [hid]; exact hprior, by simpa using hopen⟩) hhistory

/-! ## Operations -/

theorem handleMessageSend_effect (req : RpcRequest D) :
    Effect env r target s (s.handleMessageSend env r req).2.error.isNone
      (s.handleMessageSend env r req).1 := by
  unfold handleMessageSend
  split
  · exact effect_self false
  next p hp =>
    obtain ⟨k, hk, hcontext⟩ := s.contextFor_eq p.contextID
    simp only [hcontext]
    split
    · exact .idle true (k + 1) (by omega)
    · have hturn : Answers env r target (s.withSeq k) ((s.withSeq k).transition env r req.id p
          (s.replyFor (partsText p.parts)).parts (s.replyFor (partsText p.parts)).state
          (s.contextFor p.contextID).2) := transition_answers _ _ _ _ _
      generalize (s.withSeq k).transition .. = out at hturn ⊢
      cases hturn with
      | rejected herror h =>
        rw [Option.isNone_eq_false_iff.mpr herror]
        exact h.of_withSeq hk
      | accepted h => exact h.of_withSeq hk

theorem streamResults_answers (req : RpcRequest D) :
    Answers env r target s (s.streamResults env r req) := by
  unfold streamResults
  split
  · exact .rejected rfl (effect_self false)
  · split
    · exact .rejected rfl (effect_self false)
    next p hp =>
      obtain ⟨k, hk, hcontext⟩ := s.contextFor_eq p.contextID
      simp only [hcontext]
      have hturn : Answers env r target (s.withSeq k) ((s.withSeq k).transition env r req.id p
          (s.replyFor (partsText p.parts)).parts (s.replyFor (partsText p.parts)).state
          (s.contextFor p.contextID).2) := transition_answers _ _ _ _ _
      generalize (s.withSeq k).transition .. = out at hturn ⊢
      cases hturn with
      | rejected herror h => exact .rejected herror (h.of_withSeq hk)
      | @accepted s' task h =>
        have hminted : Effect env r target s true (s'.nextID "msg").1 :=
          (h.of_withSeq hk).withSeq (Nat.le_succ _)
        dsimp only
        split
        · exact .accepted hminted
        · exact .accepted hminted

theorem handleTasksGet_effect (req : RpcRequest D) :
    Effect env r target s (s.handleTasksGet env r req).2.error.isNone (s.handleTasksGet env r req).1 := by
  unfold handleTasksGet
  split
  · exact effect_self false
  · simp only
    split
    · exact effect_pruneExpired false
    · exact effect_pruneExpired true

theorem handleTasksCancel_effect (req : RpcRequest D) :
    Effect env r (req.taskParams.toOption.map (·.id)) s
      (s.handleTasksCancel env r req).2.error.isNone (s.handleTasksCancel env r req).1 := by
  unfold handleTasksCancel
  split
  · exact effect_self false
  next p hp =>
    simp only
    split
    · exact effect_pruneExpired false
    next task hlookup =>
      split
      · exact effect_pruneExpired false
      next hopen =>
        have hseq : s.seq ≤ (s.pruneExpired r.prune).seq := (s.pruneExpired_seq r.prune).ge
        exact .canceled _ hseq p.id (by rw [hp]; rfl) task hlookup (by simpa using hopen)

end

/-- **Every operation has one of the effects.** -/
theorem apply_effect (env : Env D) (s : Server D) (op : Op D) :
    Effect env op.readings op.cancels s (s.rejection env op).isNone (s.apply env op) := by
  cases op with
  | stream r req =>
    have hstream : Answers env r none s (s.streamResults env r req) := streamResults_answers req
    simp only [rejection, apply, Op.readings, Op.cancels]
    generalize s.streamResults env r req = out at hstream ⊢
    cases hstream with
    | rejected herror h =>
      rw [Option.isNone_eq_false_iff.mpr herror]
      exact h
    | accepted h => exact h
  | rpc r req =>
    simp only [rejection, apply, dispatch]
    split
    · exact effect_self false
    next hversion =>
      split
      · exact handleMessageSend_effect req
      · split
        · exact handleTasksGet_effect req
        · split
          next hcancel =>
            have htarget : (Op.rpc r req).cancels = req.taskParams.toOption.map (·.id) :=
              if_pos ⟨by simpa using hversion, hcancel⟩
            rw [htarget]
            exact handleTasksCancel_effect req
          next =>
            split
            · exact effect_self true
            · exact effect_self false

end Server

end MockAgents.A2A
