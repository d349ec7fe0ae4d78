import MockAgents.A2A.Proofs.Effects
/-!
# The accounts of the task store

The three maps have the same keys, the bytes are those of the stored tasks, and their sum is
kept.  A new turn is stored only within the limits; a cancellation encodes its task again
without a check.
-/

namespace MockAgents.A2A

open Lib Lib.Maps List AList

variable {D : Type}

namespace Server

structure Accounts (env : Env D) (s : Server D) : Prop where
  bytes : ∀ id, s.taskBytes.lookup id = (s.tasks.lookup id).map (Task.encodedLen env.marshalData)
  expiry : ∀ id, (s.taskExpiry.lookup id).isSome = (s.tasks.lookup id).isSome
  named : ∀ id task, s.tasks.lookup id = some task → task.id = id
  history : ∀ id task, s.tasks.lookup id = some task → task.history.length ≤ s.maxHistory
  retained : s.retainedBytes = (total s.taskBytes : Nat)
  count : s.tasks.keys.length ≤ s.maxTasks

theorem accounts_newServer (env : Env D) (responses : List (MessageResponse D))
    (options : ServerOptions) : Accounts env (newServer responses options) where
  bytes := fun _ => rfl
  expiry := fun _ => rfl
  named := fun _ _ h => by cases h
  history := fun _ _ h => by cases h
  retained := rfl
  count := Nat.zero_le _

variable {s : Server D} {env : Env D} {task : Task D}
variable {id : String} {P : Server D → Prop}

theorem Accounts.withSeq (h : Accounts env s) (seq : Nat) : Accounts env (s.withSeq seq) :=
  ⟨h.bytes, h.expiry, h.named, h.history, h.retained, h.count⟩

theorem Accounts.forget (h : Accounts env s) (id : String) :
    Accounts env (s.forget id) where
  bytes := by
    intro id'
    by_cases heq : id' = id
    · subst heq
      simp [Server.forget]
    · simpa [Server.forget, lookup_erase_ne heq] using h.bytes id'
  expiry := by
    intro id'
    by_cases heq : id' = id
    · subst heq
      simp [Server.forget]
    · simpa [Server.forget, lookup_erase_ne heq] using h.expiry id'
  named := fun id' task hlookup => h.named id' task (lookup_of_erase hlookup)
  history := fun id' task hlookup => h.history id' task (lookup_of_erase hlookup)
  retained := by
    have htotal := total_erase s.taskBytes id
    have hbefore := h.retained
    simp only [Server.forget]
    omega
  count := by
    have hlength : (s.tasks.erase id).keys.length ≤ s.tasks.keys.length := by
      rw [keys_erase]
      exact length_erase_le
    exact hlength.trans h.count

theorem Accounts.pruneExpired (h : Accounts env s) (now : Int) :
    Accounts env (s.pruneExpired now) :=
  pruneExpired_induction (fun _ id h => h.forget id) h now

theorem Accounts.store (h : Accounts env s) (hhistory : task.history.length ≤ s.maxHistory)
    (hcount : (s.tasks.keys.length + if (s.tasks.lookup task.id).isSome then 0 else 1) ≤ s.maxTasks)
    (expiry : Int) : Accounts env (s.store task (task.encodedLen env.marshalData) expiry) where
  bytes := by
    intro id
    by_cases heq : id = task.id
    · subst heq
      simp [Server.store]
    · simpa [Server.store, lookup_insert_ne heq] using h.bytes id
  expiry := by
    intro id
    by_cases heq : id = task.id
    · subst heq
      simp [Server.store]
    · simpa [Server.store, lookup_insert_ne heq] using h.expiry id
  named := by
    intro id task' hlookup
    by_cases heq : id = task.id
    · subst heq
      obtain rfl : task = task' := by simpa [Server.store] using hlookup
      rfl
    · exact h.named id task' (by simpa [Server.store, lookup_insert_ne heq] using hlookup)
  history := by
    intro id task' hlookup
    by_cases heq : id = task.id
    · subst heq
      obtain rfl : task = task' := by simpa [Server.store] using hlookup
      exact hhistory
    · exact h.history id task' (by simpa [Server.store, lookup_insert_ne heq] using hlookup)
  retained := by
    have htotal := total_insert s.taskBytes task.id (task.encodedLen env.marshalData)
    have hbefore := h.retained
    simp only [Server.store]
    omega
  count := by
    refine le_trans ?_ hcount
    simp only [Server.store, keys_insert, length_cons]
    split
    next hsome =>
      have hmem : task.id ∈ s.tasks.keys := mem_keys.mp (lookup_isSome.mp hsome)
      have hpos := length_pos_of_mem hmem
      rw [length_erase_of_mem hmem]
      omega
    next =>
      have hle : (s.tasks.keys.erase task.id).length ≤ s.tasks.keys.length := length_erase_le
      omega

/-- Where the accounts agree, a cancellation stores the canceled task. -/
theorem Accounts.cancel_eq_store (h : Accounts env s)
    (hlookup : s.tasks.lookup id = some task) (r : Readings) (expiry : Int) : ({ s with
        tasks := s.tasks.insert id (canceled env r task)
        taskExpiry := s.taskExpiry.insert id expiry }.replaceAccounting env (canceled env r task)) =
      s.store (canceled env r task) ((canceled env r task).encodedLen env.marshalData) expiry := by
  have hid : (canceled env r task).id = id := h.named id task hlookup
  simp only [replaceAccounting, Server.store, hid]
  congr 1
  omega

theorem Accounts.cancel (h : Accounts env s) (hlookup : s.tasks.lookup id = some task)
    (r : Readings) (expiry : Int) :
    Accounts env (s.store (canceled env r task) ((canceled env r task).encodedLen env.marshalData)
      expiry) := by
  have hid : (canceled env r task).id = id := h.named id task hlookup
  have hhistory : (canceled env r task).history.length ≤ s.maxHistory := h.history id task hlookup
  refine h.store hhistory ?_ expiry
  rw [hid, hlookup]
  exact h.count

/-- **Every operation keeps the accounts.** -/
theorem Accounts.effect {r : Readings} {target : Option String} {s' : Server D} {accepted : Bool}
    (h : Accounts env s) (heffect : Effect env r target s accepted s') : Accounts env s' := by
  cases heffect with
  | idle _ seq hseq => exact h.withSeq seq
  | pruned _ seq hseq => exact (h.pruneExpired _).withSeq seq
  | committed seq hseq task hnew hhistory hfits =>
    simp only [capacityExceeded, Bool.or_eq_false_iff, decide_eq_false_iff_not, not_lt] at hfits
    exact ((h.pruneExpired _).store hhistory hfits.1 _).withSeq seq
  | canceled seq hseq id htarget task hlookup hopen =>
    rw [(h.pruneExpired _).cancel_eq_store hlookup]
    exact ((h.pruneExpired _).cancel hlookup _ _).withSeq seq

/-! ## The byte limit -/

/-- The canceled form of the task an operation cancels fits into the byte limit. -/
def CancelFits (env : Env D) (s : Server D) (op : Op D) : Prop :=
  ∀ id ∈ op.cancels, ∀ task ∈ (s.pruneExpired op.readings.prune).tasks.lookup id,
    isTerminal task.status.state = false →
      (s.pruneExpired op.readings.prune).retainedBytes -
          (((s.pruneExpired op.readings.prune).taskBytes.lookup id).getD 0 : Nat) +
          ((canceled env op.readings task).encodedLen env.marshalData : Nat) ≤ s.maxTaskBytes

instance (env : Env D) (s : Server D) (op : Op D) : Decidable (CancelFits env s op) := by
  unfold CancelFits
  infer_instance

theorem pruneExpired_maxTaskBytes (s : Server D) (now : Int) :
    (s.pruneExpired now).maxTaskBytes = s.maxTaskBytes :=
  pruneExpired_induction (P := fun s' => s'.maxTaskBytes = s.maxTaskBytes) (fun _ _ h => h) rfl now

theorem pruneExpired_retainedBytes (s : Server D) (now : Int) :
    (s.pruneExpired now).retainedBytes ≤ s.retainedBytes :=
  pruneExpired_induction (P := fun s' => s'.retainedBytes ≤ s.retainedBytes)
    (fun s' id h => by
      simp only [Server.forget]
      omega)
    le_rfl now

theorem Accounts.retained_le {op : Op D} (h : Accounts env s)
    (hbytes : s.retainedBytes ≤ s.maxTaskBytes) (hcancel : CancelFits env s op) :
    (s.apply env op).retainedBytes ≤ (s.apply env op).maxTaskBytes := by
  have heffect := apply_effect env s op
  have hpruned : (s.pruneExpired op.readings.prune).retainedBytes ≤
      (s.pruneExpired op.readings.prune).maxTaskBytes := by
    rw [pruneExpired_maxTaskBytes]
    exact (pruneExpired_retainedBytes s _).trans hbytes
  generalize s.apply env op = s', (s.rejection env op).isNone = accepted at heffect ⊢
  cases heffect with
  | idle _ seq hseq => exact hbytes
  | pruned _ seq hseq => exact hpruned
  | committed seq hseq task hnew hhistory hfits =>
    simp only [capacityExceeded, Bool.or_eq_false_iff, decide_eq_false_iff_not, not_lt] at hfits
    exact hfits.2
  | canceled seq hseq id htarget task hlookup hopen =>
    rw [(h.pruneExpired _).cancel_eq_store hlookup]
    have hid : (canceled env op.readings task).id = id := (h.pruneExpired _).named id task hlookup
    show (s.pruneExpired op.readings.prune).retainedBytes -
      (((s.pruneExpired op.readings.prune).taskBytes.lookup
        (canceled env op.readings task).id).getD 0 : Nat) + _ ≤ _
    rw [hid]
    exact (hcancel id htarget task hlookup hopen).trans
      (Int.ofNat_le.mpr (pruneExpired_maxTaskBytes s _).ge)

/-! ## Runs -/

/-- Every operation of a run meets a condition on the state it is taken in. -/
def Steps (env : Env D) (ok : Server D → Op D → Prop) (s : Server D) : List (Op D) → Prop
  | [] => True
  | op :: ops => ok s op ∧ Steps env ok (s.apply env op) ops

instance decidableSteps (env : Env D) (ok : Server D → Op D → Prop) [∀ s op, Decidable (ok s op)] :
    ∀ (s : Server D) (ops : List (Op D)), Decidable (Steps env ok s ops)
  | _, [] => inferInstanceAs (Decidable True)
  | s, op :: ops =>
    have := decidableSteps env ok (s.apply env op) ops
    inferInstanceAs (Decidable (ok s op ∧ Steps env ok (s.apply env op) ops))

/-- What every operation keeps holds after every run. -/
theorem run_induction (hop : ∀ s op, P s → P (s.apply env op)) (h : P s)
    (ops : List (Op D)) : P (s.run env ops) :=
  foldlRecOn ops _ h fun s hs op _ => hop s op hs

/-- What every allowed operation keeps holds after every allowed run. -/
theorem Steps.run_induction {ok : Server D → Op D → Prop}
    (hop : ∀ s op, P s → ok s op → P (s.apply env op)) {ops : List (Op D)} (hs : Steps env ok s ops)
    (h : P s) : P (s.run env ops) := by
  induction ops generalizing s with
  | nil => exact h
  | cons op ops ih => exact ih hs.2 (hop s op h hs.1)

theorem accounts_run (env : Env D) (responses : List (MessageResponse D)) (options : ServerOptions)
    (ops : List (Op D)) : Accounts env ((newServer responses options).run env ops) :=
  run_induction (P := Accounts env) (fun s op h => h.effect (apply_effect env s op))
    (accounts_newServer env responses options) ops

end Server

/-! A server that answers every message with a task at work. -/

def plainEnv : Env Empty where
  marshalData := fun d => nomatch d
  unmarshalTask := fun _ => Task.zero
  rfc3339 := fun _ => "2026-01-01T00:00:00Z"
  printable := fun _ => false

def atWork : List (MessageResponse Empty) := [⟨"", true, "ok", "working", false, none⟩]

def sendHello : RpcRequest Empty where
  jsonrpc := "2.0"
  id := Utf8.bytes "1"
  method := "message/send"
  messageParams := .ok ⟨some [⟨"text", "hi", none, none⟩], "m1", "c1", ""⟩
  taskParams := .error ""

def cancelFirst : RpcRequest Empty where
  jsonrpc := "2.0"
  id := Utf8.bytes "2"
  method := "tasks/cancel"
  messageParams := .error ""
  taskParams := .ok ⟨"task-1"⟩

def sendThenCancel : List (Op Empty) :=
  [.rpc ⟨0, 0, 0, 0⟩ sendHello, .rpc ⟨1, 1, 1, 1⟩ cancelFirst]

end MockAgents.A2A
