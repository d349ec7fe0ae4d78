import MockAgents.A2A.Proofs.Accounting
/-!
# Terminal tasks

A terminal task stays as it is until its deadline has passed, and a rejected operation leaves
every task alone whose deadline has not passed.
-/

namespace MockAgents.A2A

open Lib Lib.Maps AList

variable {D : Type}

namespace Server

/-! ## Ids of tasks -/

/-- Every stored task is under an id minted before. -/
def Minted (s : Server D) : Prop :=
  ∀ id task, s.tasks.lookup id = some task → ∃ k ≤ s.seq, id = taskName k

theorem taskName_inj {j k : Nat} (h : taskName j = taskName k) : j = k :=
  Nat.repr_inj.mp ((String.append_right_inj "task-").mp h)

variable {task : Task D} {id : String} {s s' : Server D} {target : Option String} {r : Readings}
variable {env : Env D}

theorem lookup_of_pruneExpired {now : Int} (h : (s.pruneExpired now).tasks.lookup id = some task) :
    s.tasks.lookup id = some task :=
  pruneExpired_induction
    (P := fun s' => ∀ task, s'.tasks.lookup id = some task → s.tasks.lookup id = some task)
    (fun _ _ hs task hlookup => hs task (lookup_of_erase hlookup)) (fun _ hlookup => hlookup) now
    task h

theorem Minted.effect {accepted : Bool} (h : s.Minted) (heffect : Effect env r target s accepted s')
    : s'.Minted := by
  intro id task hlookup
  have hold : ∀ {seq id task}, s.seq ≤ seq → (s.pruneExpired r.prune).tasks.lookup id = some task →
      ∃ k ≤ seq, id = taskName k := by
    intro seq id task hseq hlookup
    obtain ⟨k, hk, hid⟩ := h id task (lookup_of_pruneExpired hlookup)
    exact ⟨k, hk.trans hseq, hid⟩
  cases heffect with
  | idle _ seq hseq =>
    obtain ⟨k, hk, hid⟩ := h id task hlookup
    exact ⟨k, hk.trans hseq, hid⟩
  | pruned _ seq hseq => exact hold hseq hlookup
  | committed seq hseq task' hnew hhistory hfits =>
    rcases lookup_of_insert hlookup with ⟨rfl, -⟩ | ⟨-, hbefore⟩
    · rcases hnew with ⟨k, hlt, hle, hname⟩ | ⟨prior, hprior, hopen⟩
      · exact ⟨k, hle, hname⟩
      · exact hold hseq hprior
    · exact hold hseq hbefore
  | canceled seq hseq id' htarget task' hlookup' hopen =>
    rcases lookup_of_insert hlookup with ⟨rfl, -⟩ | ⟨-, hbefore⟩
    · exact hold hseq hlookup'
    · exact hold hseq hbefore

/-! ## Steps -/

theorem SameAt.withSeq (h : SameAt id s s') (seq : Nat) : SameAt id s (s'.withSeq seq) :=
  ⟨h.tasks, h.bytes, h.expiry⟩

theorem sameAt_store (s : Server D) (h : id ≠ task.id) (size : Nat) (expiry : Int) :
    SameAt id s (s.store task size expiry) :=
  ⟨lookup_insert_ne h, lookup_insert_ne h, lookup_insert_ne h⟩

/-- A terminal task that has not expired is left alone. -/
theorem Effect.sameAt {accepted : Bool} (heffect : Effect env r target s accepted s')
    (haccounts : Accounts env s) (hminted : s.Minted) (hlookup : s.tasks.lookup id = some task)
    (hterminal : isTerminal task.status.state = true) (hlive : ¬ s.Expired r.prune id) :
    SameAt id s s' := by
  have hpruned := sameAt_pruneExpired hlive
  have hstays : (s.pruneExpired r.prune).tasks.lookup id = some task := hpruned.tasks.trans hlookup
  have hopen_ne : ∀ id' task', (s.pruneExpired r.prune).tasks.lookup id' = some task' →
      isTerminal task'.status.state = false → id ≠ id' := by
    rintro id' task' hlookup' hopen rfl
    obtain rfl : task = task' := Option.some.inj (hstays.symm.trans hlookup')
    rw [hterminal] at hopen
    cases hopen
  cases heffect with
  | idle _ seq hseq => exact ⟨rfl, rfl, rfl⟩
  | pruned _ seq hseq => exact hpruned.withSeq seq
  | committed seq hseq task' hnew hhistory hfits =>
    have hne : id ≠ task'.id := by
      rcases hnew with ⟨k, hlt, hle, hname⟩ | ⟨prior, hprior, hopen⟩
      · -- a new id is above every id in the store
        obtain ⟨j, hj, hid⟩ := hminted id task hlookup
        rw [hid, hname]
        intro heq
        have := taskName_inj heq
        omega
      · exact hopen_ne _ prior hprior hopen
    exact (hpruned.trans (sameAt_store _ hne _ _)).withSeq seq
  | canceled seq hseq id' htarget task' hlookup' hopen =>
    rw [(haccounts.pruneExpired _).cancel_eq_store hlookup']
    have hid : (Server.canceled env r task').id = id' :=
      (haccounts.pruneExpired _).named id' task' hlookup'
    have hne : id ≠ (Server.canceled env r task').id := hid ▸ hopen_ne id' task' hlookup' hopen
    exact (hpruned.trans (sameAt_store _ hne _ _)).withSeq seq

theorem Effect.sameAt_of_rejected (heffect : Effect env r target s false s')
    (hlive : ¬ s.Expired r.prune id) : SameAt id s s' := by
  cases heffect with
  | idle _ seq hseq => exact ⟨rfl, rfl, rfl⟩
  | pruned _ seq hseq => exact (sameAt_pruneExpired hlive).withSeq seq

/-! ## Runs -/

theorem sameAt_run (haccounts : Accounts env s) (hminted : s.Minted)
    (hlookup : s.tasks.lookup id = some task) (hterminal : isTerminal task.status.state = true)
    (more : List (Op D)) :
    SameAt id s (s.run env more) ∨ ∃ op ∈ more, s.Expired op.readings.prune id := by
  induction more generalizing s with
  | nil => exact .inl ⟨rfl, rfl, rfl⟩
  | cons op more ih =>
    by_cases hlive : s.Expired op.readings.prune id
    · exact .inr ⟨op, List.mem_cons_self, hlive⟩
    · have heffect := apply_effect env s op
      have hsame := heffect.sameAt haccounts hminted hlookup hterminal hlive
      rcases ih (haccounts.effect heffect) (hminted.effect heffect) (hsame.tasks.trans hlookup) with
        hrest | ⟨op', hmem, t, ht, hle⟩
      · exact .inl (hsame.trans hrest)
      · exact .inr ⟨op', List.mem_cons_of_mem op hmem, t, hsame.expiry ▸ ht, hle⟩

/-- **Terminal states absorb**: in every run a terminal task stays as it is until an operation
reads the clock at or after its deadline, and a rejected operation leaves every task alone
that has not expired. -/
theorem terminal_absorbs (env : Env D) (responses : List (MessageResponse D))
    (options : ServerOptions) (ops : List (Op D)) :
    let s := (newServer responses options).run env ops
    (∀ id task, s.tasks.lookup id = some task → isTerminal task.status.state = true →
      ∀ more, SameAt id s (s.run env more) ∨ ∃ op ∈ more, s.Expired op.readings.prune id) ∧
    ∀ op, (s.rejection env op).isSome → ∀ id, ¬ s.Expired op.readings.prune id →
      SameAt id s (s.apply env op) := by
  intro s
  refine ⟨fun id task hlookup hterminal more => ?_, fun op hrejected id hlive => ?_⟩
  · have hminted : s.Minted := run_induction (fun s op h => h.effect (apply_effect env s op))
      (fun _ _ h => (by cases h)) ops
    exact sameAt_run (accounts_run env responses options ops) hminted hlookup hterminal more
  · have heffect := apply_effect env s op
    have hfalse : (s.rejection env op).isNone = false := by
      rw [Option.isNone_eq_false_iff]
      exact hrejected
    rw [hfalse] at heffect
    exact heffect.sameAt_of_rejected hlive

end Server

def continueFirst : RpcRequest Empty where
  jsonrpc := "2.0"
  id := Utf8.bytes "3"
  method := "message/send"
  messageParams := .ok ⟨some [⟨"text", "more", none, none⟩], "m2", "", "task-1"⟩
  taskParams := .error ""

/-- A canceled task before its deadline, and a message to it. -/
theorem terminal_absorbs_canceled :
    let s := (newServer atWork ⟨10, 1000, 4, 100⟩).run plainEnv sendThenCancel
    (s.tasks.lookup "task-1").map (·.status.state) = some "canceled" ∧
      Server.SameAt "task-1" s (s.run plainEnv [.rpc ⟨50, 50, 50, 50⟩ continueFirst]) ∧
      Server.SameAt "task-1" s (s.apply plainEnv (.rpc ⟨50, 50, 50, 50⟩ continueFirst)) := by
  intro s
  have hstate : (s.tasks.lookup "task-1").map (·.status.state) = some "canceled" := by
    decide +kernel
  obtain ⟨task, hlookup, hcanceled⟩ := Option.map_eq_some_iff.mp hstate
  obtain ⟨habsorbs, hrejects⟩ := Server.terminal_absorbs plainEnv atWork ⟨10, 1000, 4, 100⟩
    sendThenCancel
  have hlive : ¬ s.Expired 50 "task-1" := by decide +kernel
  refine ⟨hstate, ?_, hrejects _ (by decide +kernel) _ hlive⟩
  rcases habsorbs "task-1" task hlookup (by rw [hcanceled]; rfl) [.rpc ⟨50, 50, 50, 50⟩ continueFirst] with
    hsame | ⟨op, hop, hexpired⟩
  · exact hsame
  · obtain rfl := List.mem_singleton.mp hop
    exact absurd hexpired hlive

end MockAgents.A2A
