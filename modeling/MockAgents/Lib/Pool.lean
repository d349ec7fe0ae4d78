import Mathlib
/-!
# Calls in any interleaving

A pool holds a shared state and the calls started so far, each with its local state.
An action starts a call or lets one take its next step, so that a list of actions is
one interleaving.  A step belongs to one call: an invariant of all calls is kept when
the step keeps it for the call that moves and the others survive the change of the
shared state.
-/

namespace MockAgents.Lib

open List Option

universe u

/-- How a call starts, and its next step under what the environment chooses. -/
structure System (σ τ κ : Type) (χ : Type u) where
  start : κ → τ
  next : χ → σ → τ → σ × τ

inductive Act (κ : Type) (χ : Type u) where
  | start (call : κ)
  | step (i : Nat) (choice : χ)

/-- The calls stand in the order in which they were started. -/
structure Pool (σ τ : Type) where
  shared : σ
  calls : List τ

variable {σ τ κ : Type} {χ : Type u}

namespace System

variable (sys : System σ τ κ χ)

def act (w : Pool σ τ) : Act κ χ → Pool σ τ
  | .start call => { w with calls := w.calls ++ [sys.start call] }
  | .step i choice =>
    match w.calls[i]? with
    | none => w
    | some t =>
      ⟨(sys.next choice w.shared t).1, w.calls.set i (sys.next choice w.shared t).2⟩

def run (w : Pool σ τ) (acts : List (Act κ χ)) : Pool σ τ := acts.foldl sys.act w

/-- Every action of the run meets a condition on the state it is taken in. -/
def Steps (ok : Pool σ τ → Act κ χ → Prop) (w : Pool σ τ) : List (Act κ χ) → Prop
  | [] => True
  | a :: acts => ok w a ∧ Steps ok (sys.act w a) acts

instance decidableSteps (ok : Pool σ τ → Act κ χ → Prop) [∀ w a, Decidable (ok w a)] :
    ∀ (w : Pool σ τ) (acts : List (Act κ χ)), Decidable (sys.Steps ok w acts)
  | _, [] => inferInstanceAs (Decidable True)
  | w, a :: acts =>
    have := decidableSteps ok (sys.act w a) acts
    inferInstanceAs (Decidable (ok w a ∧ sys.Steps ok (sys.act w a) acts))

variable {sys}

/-! ## Runs -/

@[simp] theorem run_nil (w : Pool σ τ) : sys.run w [] = w := rfl

@[simp] theorem run_cons (w : Pool σ τ) (a : Act κ χ) (acts : List (Act κ χ)) :
    sys.run w (a :: acts) = sys.run (sys.act w a) acts := rfl

theorem run_append (w : Pool σ τ) (acts more : List (Act κ χ)) :
    sys.run w (acts ++ more) = sys.run (sys.run w acts) more :=
  foldl_append

variable {w : Pool σ τ} {acts : List (Act κ χ)} {i : Nat} {t : τ}
variable {ok : Pool σ τ → Act κ χ → Prop} {P : Pool σ τ → Prop} {a : Act κ χ} {t' : τ}
variable {Q : τ → Prop}

theorem steps_append {more : List (Act κ χ)} :
    sys.Steps ok w (acts ++ more) ↔ sys.Steps ok w acts ∧ sys.Steps ok (sys.run w acts) more := by
  induction acts generalizing w with
  | nil => simp [Steps]
  | cons a acts ih => simp [Steps, ih, and_assoc]

theorem Steps.and {ok' : Pool σ τ → Act κ χ → Prop} (h : sys.Steps ok w acts)
    (h' : sys.Steps ok' w acts) : sys.Steps (fun w a => ok w a ∧ ok' w a) w acts := by
  induction acts generalizing w with
  | nil => trivial
  | cons a acts ih => exact ⟨⟨h.1, h'.1⟩, ih h.2 h'.2⟩

theorem steps_of_forall {ok : Act κ χ → Prop} (h : ∀ a ∈ acts, ok a) :
    sys.Steps (fun _ a => ok a) w acts := by
  induction acts generalizing w with
  | nil => trivial
  | cons a acts ih =>
    exact ⟨h a mem_cons_self, ih fun b hb => h b (mem_cons_of_mem a hb)⟩

/-- What every allowed action keeps holds after every allowed run. -/
theorem Steps.run_induction
    (hact : ∀ w a, P w → ok w a → P (sys.act w a)) (hs : sys.Steps ok w acts) (h : P w) :
    P (sys.run w acts) := by
  induction acts generalizing w with
  | nil => exact h
  | cons a acts ih => exact ih hs.2 (hact w a h hs.1)

theorem run_induction (hact : ∀ w a, P w → P (sys.act w a)) (h : P w)
    (acts : List (Act κ χ)) : P (sys.run w acts) :=
  foldlRecOn acts _ h fun w hw a _ => hact w a hw

/-! ## One call -/

/-- The call an action leaves at a number is the one that was there, the one that
moved, or the one that was started. -/
theorem call_act_cases (h : (sys.act w a).calls[i]? = some t') :
    (w.calls[i]? = some t' ∧ ∀ choice, a ≠ .step i choice) ∨
      (∃ choice t, a = .step i choice ∧ w.calls[i]? = some t ∧ t' = (sys.next choice w.shared t).2) ∨
      ∃ call, a = .start call ∧ i = w.calls.length ∧ t' = sys.start call := by
  cases a with
  | start call =>
    rw [act, getElem?_append] at h
    split at h
    · exact .inl ⟨h, by simp⟩
    next hlt =>
      rw [getElem?_singleton] at h
      split at h
      · exact .inr (.inr ⟨call, rfl, by omega, (Option.some.inj h).symm⟩)
      · simp at h
  | step j choice =>
    rw [act] at h
    split at h
    next hnone =>
      refine .inl ⟨h, fun choice' heq => ?_⟩
      obtain ⟨rfl, -⟩ : j = i ∧ choice = choice' := by simpa using heq
      rw [hnone] at h
      cases h
    next t ht =>
      rw [getElem?_set] at h
      split at h
      next heq =>
        subst heq
        split at h
        · exact .inr (.inl ⟨choice, t, rfl, ht, (Option.some.inj h).symm⟩)
        · simp at h
      next hne => exact .inl ⟨h, fun choice' heq => hne (by injection heq)⟩

/-- A call that was started is still there, as it was or moved. -/
theorem call_act_of_some (h : w.calls[i]? = some t) (a : Act κ χ) :
    (sys.act w a).calls[i]? = some t ∨
      ∃ choice, a = .step i choice ∧
        (sys.act w a).calls[i]? = some (sys.next choice w.shared t).2 := by
  have hlt := (List.getElem?_eq_some_iff.mp h).choose
  cases a with
  | start call => exact .inl (by rw [act, getElem?_append_left hlt, h])
  | step j choice =>
    rw [act]
    cases hj : w.calls[j]? with
    | none => exact .inl h
    | some u =>
      by_cases heq : j = i
      · subst heq
        obtain rfl : t = u := Option.some.inj (h.symm.trans hj)
        exact .inr ⟨choice, rfl, by simp [hlt]⟩
      · exact .inl (by simp [heq, h])

/-- What a step does to the shared state and to its call. -/
theorem act_step (h : w.calls[i]? = some t) (choice : χ) :
    (sys.act w (.step i choice)).shared = (sys.next choice w.shared t).1 ∧
      (sys.act w (.step i choice)).calls[i]? = some (sys.next choice w.shared t).2 := by
  have hlt := (List.getElem?_eq_some_iff.mp h).choose
  rw [act, h]
  exact ⟨rfl, by simp [hlt]⟩

theorem act_step_eq (h : w.calls[i]? = some t) (choice : χ) :
    sys.act w (.step i choice) =
      ⟨(sys.next choice w.shared t).1, w.calls.set i (sys.next choice w.shared t).2⟩ := by
  rw [act, h]

theorem act_step_none (h : w.calls[i]? = none) (choice : χ) : sys.act w (.step i choice) = w := by
  rw [act, h]

theorem act_of_step (hw : P w) (hstart : ∀ call, a = .start call → P (sys.act w (.start call)))
    (hstep : ∀ i choice t, a = .step i choice → w.calls[i]? = some t →
      P ⟨(sys.next choice w.shared t).1, w.calls.set i (sys.next choice w.shared t).2⟩) :
    P (sys.act w a) := by
  cases a with
  | start call => exact hstart call rfl
  | step i choice =>
    cases hi : w.calls[i]? with
    | none =>
      rw [act_step_none hi]
      exact hw
    | some t =>
      rw [act_step_eq hi]
      exact hstep i choice t rfl hi

theorem call_start (w : Pool σ τ) (call : κ) :
    (sys.act w (.start call)).calls[w.calls.length]? = some (sys.start call) := by
  simp [act]

theorem length_act (w : Pool σ τ) (a : Act κ χ) : w.calls.length ≤ (sys.act w a).calls.length := by
  cases a with
  | start call => simp [act]
  | step i choice => rw [act]; split <;> simp

theorem length_run (w : Pool σ τ) (acts : List (Act κ χ)) :
    w.calls.length ≤ (sys.run w acts).calls.length :=
  run_induction (P := fun w' => w.calls.length ≤ w'.calls.length)
    (fun w' a h => Nat.le_trans h (length_act w' a)) (Nat.le_refl _) acts

theorem started_before (call : κ) (acts : List (Act κ χ)) :
    w.calls.length < (sys.run w (.start call :: acts)).calls.length := by
  have hle : (sys.act w (.start call)).calls.length ≤
      (sys.run (sys.act w (.start call)) acts).calls.length := length_run _ acts
  have hlen : (sys.act w (.start call)).calls.length = w.calls.length + 1 := by simp [act]
  rw [run_cons]
  omega

/-- What the steps of a call keep of it holds after every run. -/
theorem call_run_of_some (hnext : ∀ choice s t, Q t → Q (sys.next choice s t).2)
    (h : w.calls[i]? = some t) (hQ : Q t) (acts : List (Act κ χ)) :
    ∃ t', (sys.run w acts).calls[i]? = some t' ∧ Q t' := by
  induction acts generalizing w t with
  | nil => exact ⟨t, h, hQ⟩
  | cons a acts ih =>
    rcases call_act_of_some h a with hsame | ⟨choice, -, hmoved⟩
    · exact ih hsame hQ
    · exact ih hmoved (hnext choice w.shared t hQ)

/-- A call gets to what it was not started with by one of its steps. -/
theorem exists_step_of_reached (hstart : ∀ call, ¬ Q (sys.start call))
    (hw : ∀ t, w.calls[i]? = some t → ¬ Q t) (h : (sys.run w acts).calls[i]? = some t')
    (hQ : Q t') :
    ∃ pre choice post t, acts = pre ++ .step i choice :: post ∧
      (sys.run w pre).calls[i]? = some t ∧ ¬ Q t ∧
      Q (sys.next choice (sys.run w pre).shared t).2 := by
  induction acts using reverseRecOn generalizing t' with
  | nil => exact absurd hQ (hw t' h)
  | append_singleton acts a ih =>
    have hlonger : (∃ pre choice post t, acts = pre ++ .step i choice :: post ∧
        (sys.run w pre).calls[i]? = some t ∧ ¬ Q t ∧
        Q (sys.next choice (sys.run w pre).shared t).2) →
        ∃ pre choice post t, acts ++ [a] = pre ++ .step i choice :: post ∧
          (sys.run w pre).calls[i]? = some t ∧ ¬ Q t ∧
          Q (sys.next choice (sys.run w pre).shared t).2 := by
      rintro ⟨pre, choice, post, t, rfl, hrest⟩
      exact ⟨pre, choice, post ++ [a], t, by simp, hrest⟩
    rw [run_append] at h
    rcases call_act_cases h with ⟨hsame, -⟩ | ⟨choice, t, rfl, ht, rfl⟩ | ⟨call, -, -, rfl⟩
    · exact hlonger (ih hsame hQ)
    · by_cases hbefore : Q t
      · exact hlonger (ih ht hbefore)
      · exact ⟨acts, choice, [], t, rfl, ht, hbefore, hQ⟩
    · exact absurd hQ (hstart call)

/-! ## Observations -/

section Observed
variable {β : Type} (sys)

/-- What is seen of the actions, each in the state it is taken in. -/
def observed (see : Pool σ τ → Act κ χ → Option β) (w : Pool σ τ) : List (Act κ χ) → List β
  | [] => []
  | a :: acts => (see w a).toList ++ observed see (sys.act w a) acts

variable {sys}

end Observed

/-! ## Calls one after the other -/

variable (sys) in
/-- The shared state and a call after steps of that call only. -/
def alone (s : σ) (t : τ) : List χ → σ × τ
  | [] => (s, t)
  | choice :: choices => alone (sys.next choice s t).1 (sys.next choice s t).2 choices

theorem run_alone (h : w.calls[i]? = some t) (choices : List χ) :
    sys.run w (choices.map (.step i)) =
      ⟨(sys.alone w.shared t choices).1, w.calls.set i (sys.alone w.shared t choices).2⟩ := by
  induction choices generalizing w t with
  | nil =>
    obtain ⟨hlt, rfl⟩ := List.getElem?_eq_some_iff.mp h
    simp [alone]
  | cons choice choices ih =>
    have hstep : (sys.act w (.step i choice)).shared = (sys.next choice w.shared t).1 ∧
        (sys.act w (.step i choice)).calls[i]? = some (sys.next choice w.shared t).2 := act_step h choice
    rw [map_cons, run_cons, ih hstep.2, alone, act_step_eq h, set_set]

variable (sys) in
/-- The shared state and the calls after calls that each run to the end of the same choices. -/
def inSequence (choices : List χ) (s : σ) : List κ → σ × List τ
  | [] => (s, [])
  | call :: calls =>
    let one := sys.alone s (sys.start call) choices
    let rest := inSequence choices one.1 calls
    (rest.1, one.2 :: rest.2)

/-- The actions of calls one after the other, numbered from the first. -/
def oneByOne (choices : List χ) : Nat → List κ → List (Act κ χ)
  | _, [] => []
  | n, call :: calls => .start call :: choices.map (.step n) ++ oneByOne choices (n + 1) calls

theorem run_oneByOne (choices : List χ) (w : Pool σ τ) (calls : List κ) :
    sys.run w (oneByOne choices w.calls.length calls) =
      ⟨(sys.inSequence choices w.shared calls).1, w.calls ++ (sys.inSequence choices w.shared calls).2⟩ := by
  induction calls generalizing w with
  | nil => simp [oneByOne, inSequence]
  | cons call calls ih =>
    have hone : sys.run w (.start call :: choices.map (.step w.calls.length)) =
        ⟨(sys.alone w.shared (sys.start call) choices).1,
          w.calls ++ [(sys.alone w.shared (sys.start call) choices).2]⟩ := by
      rw [run_cons, run_alone (call_start w call)]
      simp [act]
    rw [oneByOne, run_append, hone]
    have hrest := ih ⟨(sys.alone w.shared (sys.start call) choices).1,
      w.calls ++ [(sys.alone w.shared (sys.start call) choices).2]⟩
    rw [length_append, length_singleton] at hrest
    rw [hrest, inSequence, append_assoc, singleton_append]

/-! ## All calls -/

/-- An invariant of the shared state and one of every call in it. -/
def Holds (I : σ → Prop) (L : Nat → σ → τ → Prop) (w : Pool σ τ) : Prop :=
  I w.shared ∧ ∀ i t, w.calls[i]? = some t → L i w.shared t

/-- The rule for one action: a call starts with its invariant, and a step keeps the
invariants of the shared state, of the call that moves and of every other call. -/
theorem Holds.act {I : σ → Prop} {L : Nat → σ → τ → Prop} (h : Holds I L w)
    (hstart : ∀ call, a = .start call → L w.calls.length w.shared (sys.start call))
    (hown : ∀ i choice t, a = .step i choice → w.calls[i]? = some t →
      I (sys.next choice w.shared t).1 ∧
        L i (sys.next choice w.shared t).1 (sys.next choice w.shared t).2)
    (hother : ∀ i choice t j u, a = .step i choice → w.calls[i]? = some t → w.calls[j]? = some u →
      j ≠ i → L j (sys.next choice w.shared t).1 u) : Holds I L (sys.act w a) := by
  cases a with
  | start call =>
    refine ⟨h.1, fun i t ht => ?_⟩
    rcases call_act_cases ht with ⟨hold, -⟩ | ⟨_, _, hact, -⟩ | ⟨call', hact, rfl, rfl⟩
    · exact h.2 i t hold
    · simp at hact
    · exact hstart call' hact
  | step i choice =>
    cases hi : w.calls[i]? with
    | none =>
      rw [act_step_none hi]
      exact h
    | some t =>
      have hshared : (sys.act w (.step i choice)).shared = (sys.next choice w.shared t).1 :=
        (act_step hi choice).1
      refine ⟨hshared ▸ (hown i choice t rfl hi).1, fun j u hu => ?_⟩
      rw [hshared]
      rcases call_act_cases hu with ⟨hold, hne⟩ | ⟨choice', t', hact, ht', rfl⟩ |
        ⟨_, hact, -⟩
      · exact hother i choice t j u rfl hi hold fun heq => hne choice (heq ▸ rfl)
      · obtain ⟨rfl, rfl⟩ : i = j ∧ choice = choice' := by simpa using hact
        obtain rfl : t = t' := Option.some.inj (hi.symm.trans ht')
        exact (hown i choice t rfl hi).2
      · simp at hact

end System

/-! ## What the calls hold -/

/-- What is read off each call that holds something. -/
def Pool.gather {β : Type} (f : τ → Option β) (w : Pool σ τ) : List β := w.calls.filterMap f

section Gather
variable {β : Type} {f : τ → Option β}

variable {t : τ} {i : Nat} {w : Pool σ τ} {b : β}

/-- Replacing one call trades what it held for what it holds. -/
theorem filterMap_set_perm {l : List τ} (h : l[i]? = some t) (t' : τ) :
    (l.filterMap f ++ (f t').toList).Perm ((l.set i t').filterMap f ++ (f t).toList) := by
  induction l generalizing i with
  | nil => simp at h
  | cons a l ih =>
    cases i with
    | zero =>
      obtain rfl : a = t := by simpa using h
      rw [set_cons_zero, ← singleton_append, ← singleton_append (l := l),
        filterMap_append, filterMap_append]
      have hone : ∀ x : τ, [x].filterMap f = (f x).toList := by
        intro x
        cases hx : f x <;> simp [hx]
      rw [hone, hone, append_assoc (f t').toList]
      exact perm_append_comm.trans (perm_append_comm.append_left _)
    | succ i =>
      have hrec := ih (i := i) (by simpa using h)
      rw [set_cons_succ, filterMap_cons, filterMap_cons]
      cases f a with
      | none => exact hrec
      | some b => exact hrec.cons b

theorem Pool.gather_start (sys : System σ τ κ χ) (f : τ → Option β) (w : Pool σ τ) (call : κ) :
    (sys.act w (.start call)).gather f = w.gather f ++ (f (sys.start call)).toList := by
  rw [gather, System.act, filterMap_append, ← gather]
  cases hf : f (sys.start call) <;> simp [hf]

/-- A step trades what its call held for what it holds. -/
theorem Pool.gather_set (f : τ → Option β) (h : w.calls[i]? = some t) (s' : σ) (t' : τ) :
    (w.gather f ++ (f t').toList).Perm ((Pool.mk s' (w.calls.set i t')).gather f ++ (f t).toList) :=
  filterMap_set_perm h t'

theorem Pool.count_gather_set [BEq β] [LawfulBEq β] (f : τ → Option β) (h : w.calls[i]? = some t)
    (s' : σ) (t' : τ) (b : β) :
    (w.gather f).count b + (f t').toList.count b =
      ((Pool.mk s' (w.calls.set i t')).gather f).count b + (f t).toList.count b := by
  have hcount := (gather_set f h s' t').count_eq b
  rwa [count_append, count_append] at hcount

theorem Pool.mem_gather (f : τ → Option β) (h : w.calls[i]? = some t) (hb : f t = some b) :
    b ∈ w.gather f :=
  mem_filterMap.mpr ⟨t, mem_of_getElem? h, hb⟩

/-- What is held after a step was held before it, or is held by the call that moved. -/
theorem Pool.mem_gather_set {t' : τ} {s' : σ} (h : w.calls[i]? = some t)
    (hb : b ∈ (Pool.mk s' (w.calls.set i t')).gather f) : b ∈ w.gather f ∨ f t' = some b := by
  have hmem := (gather_set f h s' t').mem_iff.mpr (mem_append_left _ hb)
  exact (mem_append.mp hmem).imp_right mem_toList.mp

/-- Where nothing is held twice, what is held names its call. -/
theorem Pool.call_eq_of_gather (hnodup : (w.gather f).Nodup) {j : Nat} {u : τ}
    (hi : w.calls[i]? = some t) (hj : w.calls[j]? = some u) (ht : f t = some b) (hu : f u = some b)
    : i = j := by
  by_contra hne
  obtain ⟨hlt, rfl⟩ := List.getElem?_eq_some_iff.mp hi
  have hsplit : w.calls = w.calls.take i ++ w.calls[i] :: w.calls.drop (i + 1) := by
    rw [getElem_cons_drop, take_append_drop]
  have hmem : u ∈ w.calls.take i ++ w.calls.drop (i + 1) := by
    rw [← eraseIdx_eq_take_drop_succ]
    exact mem_eraseIdx_iff_getElem?.mpr ⟨j, Ne.symm hne, hj⟩
  rw [gather, hsplit, filterMap_append, filterMap_cons, ht] at hnodup
  have hmid : b ∉ (w.calls.take i).filterMap f ++ (w.calls.drop (i + 1)).filterMap f :=
    (nodup_cons.mp (perm_middle.nodup_iff.mp hnodup)).1
  rw [← filterMap_append] at hmid
  exact hmid (mem_filterMap.mpr ⟨u, hmem, hu⟩)

end Gather

/-! ## Numbers the calls are given -/

section Numbers
variable {f : τ → Option Nat} {next : σ → Nat}
variable {w : Pool σ τ}

/-- What the calls hold are numbers of a counter, each with one call. -/
structure Pool.Numbered (f : τ → Option Nat) (next : σ → Nat) (w : Pool σ τ) : Prop where
  nodup : (w.gather f).Nodup
  below : ∀ n ∈ w.gather f, n < next w.shared

theorem Pool.Numbered.start {sys : System σ τ κ χ} (h : w.Numbered f next) {call : κ}
    (hnone : f (sys.start call) = none) : (sys.act w (.start call)).Numbered f next := by
  have hgather : (sys.act w (.start call)).gather f = w.gather f := by
    rw [gather_start, hnone, toList_none, append_nil]
  exact ⟨hgather ▸ h.nodup, hgather ▸ h.below⟩

/-- A call keeps its number, gives it up or takes the next one. -/
theorem Pool.Numbered.set (h : w.Numbered f next) {i : Nat} {t : τ}
    (hi : w.calls[i]? = some t) {s' : σ} {t' : τ} (hle : next w.shared ≤ next s')
    (hmoved : f t' = f t ∨ f t' = none ∨
      f t = none ∧ f t' = some (next w.shared) ∧ next w.shared < next s') :
    (Pool.mk s' (w.calls.set i t')).Numbered f next := by
  have htrade := gather_set f hi s' t'
  refine ⟨?_, fun n hn => ?_⟩
  · rcases hmoved with hsame | hnone | ⟨hnone, hnew, -⟩
    · rw [hsame] at htrade
      exact ((perm_append_right_iff _).mp htrade).nodup_iff.mp h.nodup
    · rw [hnone, toList_none, append_nil] at htrade
      exact (nodup_append.mp (htrade.nodup_iff.mp h.nodup)).1
    · rw [hnone, hnew, toList_none, append_nil] at htrade
      refine htrade.nodup_iff.mp (nodup_append.mpr ⟨h.nodup, by simp, ?_⟩)
      intro a ha b hb heq
      obtain rfl : b = next w.shared := by simpa using hb
      exact absurd (h.below a ha) (by omega)
  · rcases mem_gather_set hi hn with hold | hown
    · exact Nat.lt_of_lt_of_le (h.below n hold) hle
    · rcases hmoved with hsame | hnone | ⟨-, hnew, hlt⟩
      · exact Nat.lt_of_lt_of_le (h.below n (mem_gather f hi (hsame ▸ hown))) hle
      · rw [hnone] at hown
        cases hown
      · obtain rfl : next w.shared = n := Option.some.inj (hnew.symm.trans hown)
        exact hlt

end Numbers

/-! ## What the calls add up to -/

section Total
variable {M : Type} [AddCommMonoid M]

def Pool.total (f : τ → M) (w : Pool σ τ) : M := (w.calls.map f).sum

/-- A step trades what its call counted for what it counts. -/
theorem Pool.total_set (f : τ → M) {w : Pool σ τ} {i : Nat} {t : τ} (h : w.calls[i]? = some t)
    (s' : σ) (t' : τ) : (Pool.mk s' (w.calls.set i t')).total f + f t = w.total f + f t' := by
  obtain ⟨s, calls⟩ := w
  simp only [total]
  induction calls generalizing i with
  | nil => simp at h
  | cons a calls ih =>
    cases i with
    | zero =>
      obtain rfl : a = t := by simpa using h
      simp only [set_cons_zero, map_cons, sum_cons]
      rw [add_right_comm, add_comm (f t') (f a), add_right_comm]
    | succ i =>
      have hrec := ih (i := i) (by simpa using h)
      simp only [set_cons_succ, map_cons, sum_cons]
      rw [add_assoc, hrec, add_assoc]

/-- The rule for one action, where a call starts with nothing. -/
theorem System.act_total {sys : System σ τ κ χ} {f : τ → M} {P : σ → M → Prop} {w : Pool σ τ}
    {a : Act κ χ} (h : P w.shared (w.total f)) (hstart : ∀ call, f (sys.start call) = 0)
    (hstep : ∀ i choice t total, a = .step i choice → w.calls[i]? = some t →
      total + f t = w.total f + f (sys.next choice w.shared t).2 →
      P (sys.next choice w.shared t).1 total) : P (sys.act w a).shared ((sys.act w a).total f) := by
  refine act_of_step (P := fun w => P w.shared (w.total f)) h (fun call _ => ?_) fun i choice t ha hi => ?_
  · simpa [Pool.total, System.act, hstart] using h
  · exact hstep i choice t _ ha hi (Pool.total_set f hi _ _)

end Total

end MockAgents.Lib
