import MockAgents.State.Session
/-!
# Turns are transactional

The callback reaches only a fresh copy of the variables, or an empty map that is emptied
again when it fails.  So a failed turn leaves every node that was there, and with it the
session and all it refers to; a turn that succeeds adds its two messages and keeps the
last ones.
-/

namespace MockAgents.State

open Lib List Option Heap Session

variable {S : Type}

/-- The variables are nil or lead to a tree. -/
def JsonShaped (s : Session) (h : Heap Shape S) : Prop :=
  ∀ a, s.vars = some a → (h.tree (.ref a)).isSome = true

theorem eq_emptyMap {nd : Node Shape S} (h : isEmptyMap nd = true) : nd = emptyMap := by
  rw [isEmptyMap.eq_def] at h
  split at h
  · rfl
  · cases h

variable {h h' : Heap Shape S} {s s' : Session} {t : Turn S}
variable {a : Applied} {α : Type} {s₀ : Session}

theorem reused_spec (hr : reusedEmptyVariables s h = true) :
    ∃ a, s.vars = some a ∧ h[a]? = some emptyMap := by
  cases hv : s.vars with
  | none => simp [reusedEmptyVariables, hv] at hr
  | some a =>
    cases hnd : h[a]? with
    | none => simp [reusedEmptyVariables, hv, hnd] at hr
    | some nd =>
      rw [reusedEmptyVariables, hv, any_some, hnd] at hr
      exact ⟨a, rfl, by rw [hnd, eq_emptyMap hr]⟩

/-! ## What a commit leaves -/

namespace Session

theorem trim_eq (s : Session) :
    s.trim = { s with
      messages := if 0 < s.maxHistory then s.messages.rtake s.maxHistory.toNat else s.messages } := by
  rw [trim]
  split
  next hover =>
    rw [if_pos hover.1]
    rfl
  next hfits =>
    split
    next hpos =>
      have hlen : s.messages.length - s.maxHistory.toNat = 0 := by omega
      rw [rtake, hlen, drop_zero]
    · rfl

@[simp] theorem vars_trim (s : Session) : s.trim.vars = s.vars := by rw [trim_eq]

@[simp] theorem turnCount_trim (s : Session) : s.trim.turnCount = s.turnCount := by rw [trim_eq]

@[simp] theorem maxHistory_trim (s : Session) : s.trim.maxHistory = s.maxHistory := by rw [trim_eq]

end Session

/-! ## The map the callback is given -/

/-- A map allocated after `h`, which nothing of `h` is reached from. -/
structure Fresh (h h₁ : Heap Shape S) (a : Nat) : Prop where
  grows : ∃ news, h₁ = h ++ news
  isSealed : h₁.Sealed h.length
  above : h.length ≤ a
  tree : (h₁.tree (.ref a)).isSome = true

theorem cloneVariables_spec (hjson : JsonShaped s h) :
    ∃ a h₁, cloneVariables s.vars h = some (a, h₁) ∧ Fresh h h₁ a := by
  cases hv : s.vars with
  | none =>
    refine ⟨h.length, h ++ [emptyMap], rfl, ⟨_, rfl⟩, ?_, le_rfl, ?_⟩
    · exact h.sealed_length.append (by simp [emptyMap])
    · have hread : Heap.read 1 (h ++ [emptyMap]) (.ref h.length) = some (.node (.map []) []) := by
        simp [Heap.read, emptyMap]
      rw [tree_of_read hread]
      rfl
  | some a =>
    obtain ⟨t, ht⟩ := isSome_iff_exists.mp (hjson a hv)
    obtain ⟨v, h₁, hcopy, hcopied⟩ := copy_spec h.sealed_length le_rfl ht
    -- the copy of a reference is a reference
    obtain ⟨a', rfl⟩ : ∃ a', v = .ref a' := by
      cases v with
      | ref a' => exact ⟨a', rfl⟩
      | scalar x =>
        rw [copy.eq_def] at hcopy
        split at hcopy <;> simp_all
        split at hcopy
        · cases hcopy
        · split at hcopy <;> simp at hcopy
    refine ⟨a', h₁, by simp only [cloneVariables, hcopy], hcopied.grows, hcopied.isSealed,
      hcopied.above, ?_⟩
    rw [tree_of_read hcopied.read]
    rfl

/-- A callback that was given a fresh map leaves what was there. -/
theorem Fresh.extends {h₁ : Heap Shape S} {a : Nat} (hf : Fresh h h₁ a) (b : Build S) (n : Int) :
    h.Extends (b.run n a h₁).2 := by
  intro c nd hc
  obtain ⟨news, rfl⟩ := hf.grows
  have hlt : c < h.length := (List.getElem?_eq_some_iff.mp hc).choose
  rw [b.frame n a _ c (by rw [length_append]; omega) fun hreach => ?_]
  · exact h.extends_append news c nd hc
  · have := hreach.above hf.isSealed hf.above
    omega

/-- A callback that was given an empty map leaves the rest, and the map once emptied. -/
theorem clear_extends {a : Nat} (ha : h[a]? = some emptyMap) (b : Build S) (n : Int) :
    h.Extends (clear (b.run n a h).2 a) := by
  intro c nd hc
  have hlt : c < h.length := (List.getElem?_eq_some_iff.mp hc).choose
  have hgrows := b.grows n a h
  rw [clear, getElem?_set]
  by_cases hac : a = c
  · subst hac
    rw [if_pos rfl, if_pos (by omega), ← ha, hc]
  · rw [if_neg hac, b.frame n a h c hlt fun hreach => hac ?_]
    · exact hc
    · exact (hreach.eq_of_no_children ha rfl).symm

/-! ## One turn -/

/-- What a turn can do to a session and the variables behind it. -/
inductive TurnStep (t : Turn S) (s : Session) (h : Heap Shape S) :
    Applied → Session → Heap Shape S → Prop where
  | failed (err : String) (h' : Heap Shape S) (kept : h.Extends h') :
      TurnStep t s h ⟨s.turnCount + 1, .error err⟩ s h'
  | committed (reply : Reply) (a : Nat) (h' : Heap Shape S)
      (tree : (h'.tree (.ref a)).isSome = true) :
      TurnStep t s h
        ⟨s.turnCount + 1, .ok (⟨.user, t.userContent, [], t.userTime⟩,
          ⟨.assistant, reply.content, reply.toolCalls, t.assistantTime⟩)⟩
        (({ s with vars := some a }.appendUserMessage t.userTime t.userContent)
          |>.appendAssistantMessage t.assistantTime reply.content reply.toolCalls) h'

/-- What a turn does with the variables it was given. -/
theorem applyTurn_given (t : Turn S) {a : Nat} {h₁ : Heap Shape S} (hgiven : givenVariables s h = some (a, h₁))
    (htree : (h₁.tree (.ref a)).isSome = true)
    (hkept : h.Extends (if reusedEmptyVariables s h then clear (t.build.run (s.turnCount + 1) a h₁).2 a
      else (t.build.run (s.turnCount + 1) a h₁).2)) :
    ∃ a s' h', applyTurn t s h = some (a, s', h') ∧ TurnStep t s h a s' h' := by
  have hjson := t.build.json (s.turnCount + 1) a h₁ htree
  cases hrun : t.build.run (s.turnCount + 1) a h₁ with
  | mk result h₂ =>
    rw [hrun] at hjson hkept
    cases result with
    | error err => exact ⟨_, _, _, by simp only [applyTurn, hgiven, hrun], .failed err _ hkept⟩
    | ok reply =>
      exact ⟨_, _, _, by simp only [applyTurn, hgiven, hrun], .committed reply a h₂ (hjson rfl)⟩

theorem applyTurn_spec (t : Turn S) (hjson : JsonShaped s h) :
    ∃ a s' h', applyTurn t s h = some (a, s', h') ∧ TurnStep t s h a s' h' := by
  by_cases hr : reusedEmptyVariables s h = true
  · obtain ⟨a, hv, ha⟩ := reused_spec hr
    refine applyTurn_given t (by simp [givenVariables, hr, hv]) (hjson a hv) ?_
    rw [if_pos hr]
    exact clear_extends ha t.build (s.turnCount + 1)
  · obtain ⟨a, h₁, hclone, hfresh⟩ := cloneVariables_spec hjson
    refine applyTurn_given t (by rw [givenVariables, if_neg hr, hclone]) hfresh.tree ?_
    rw [if_neg hr]
    exact hfresh.extends t.build (s.turnCount + 1)

theorem TurnStep.jsonShaped (hstep : TurnStep t s h a s' h') (hjson : JsonShaped s h)
    : JsonShaped s' h' := by
  cases hstep with
  | failed err h' kept =>
    intro a ha
    obtain ⟨tr, htr⟩ := isSome_iff_exists.mp (hjson a ha)
    rw [tree_extends kept htr]
    rfl
  | committed reply a h' tree =>
    intro a' ha'
    have hvars : (trim _).vars = some a' := ha'
    rw [vars_trim] at hvars
    cases hvars
    exact tree

/-! ## Runs of turns -/

def Applied.ok (a : Applied) : Bool := a.result.isOk

def successes (log : List Applied) : List Applied := log.filter Applied.ok

def Applied.messages (a : Applied) : List Message :=
  match a.result with
  | .ok (user, assistant) => [user, assistant]
  | .error _ => []

def history (log : List Applied) : List Message := log.flatMap Applied.messages

theorem rtake_append_congr {n : Nat} {l l' : List α} (h : l.rtake n = l'.rtake n)
    (more : List α) : (l ++ more).rtake n = (l' ++ more).rtake n := by
  rw [rtake_eq_reverse_take_reverse, rtake_eq_reverse_take_reverse, reverse_inj] at h
  have hshort : l.reverse.take (n - more.length) = l'.reverse.take (n - more.length) := by
    have hmin : n - more.length = min (n - more.length) n := by omega
    rw [hmin, ← take_take, ← take_take, h]
  rw [rtake_eq_reverse_take_reverse, rtake_eq_reverse_take_reverse, reverse_append,
    reverse_append, take_append, take_append, length_reverse, hshort]

theorem rtake_rtake (n : Nat) (l : List α) : (l.rtake n).rtake n = l.rtake n := by
  have hlen : (l.rtake n).length - n = 0 := by
    rw [rtake, length_drop]
    omega
  rw [rtake, hlen, drop_zero]

/-- Where a session stands after the turns of `log`. -/
structure Ran (s₀ : Session) (log : List Applied) (s : Session) : Prop where
  turnCount : s.turnCount = s₀.turnCount + (successes log).length
  saw : (successes log).map (·.saw) =
    (List.range (successes log).length).map fun k => s₀.turnCount + (k + 1 : Nat)
  maxHistory : s.maxHistory = s₀.maxHistory
  recent : 0 < s₀.maxHistory → s.messages.rtake s₀.maxHistory.toNat =
    (s₀.messages ++ history log).rtake s₀.maxHistory.toNat

theorem TurnStep.messages (hstep : TurnStep t s h a s' h') (hok : a.ok = true)
    (hpos : 0 < s.maxHistory) :
    s'.messages = (s.messages ++ a.messages).rtake s.maxHistory.toNat := by
  cases hstep with
  | failed => cases hok
  | committed reply a h' tree =>
    rw [appendAssistantMessage, trim_eq]
    simp [appendUserMessage, Applied.messages, hpos]

theorem Ran.step {log : List Applied} (hran : Ran s₀ log s) (hstep : TurnStep t s h a s' h') :
    Ran s₀ (log ++ [a]) s' := by
  have hmessages := hstep.messages
  have hhistory : history (log ++ [a]) = history log ++ a.messages := by
    rw [history, flatMap_append, ← history, flatMap_singleton]
  have hsucc : successes (log ++ [a]) = successes log ++ successes [a] := filter_append ..
  cases hstep with
  | failed err h' kept =>
    have hnone : successes (log ++ [⟨s.turnCount + 1, .error err⟩]) = successes log := by
      rw [hsucc]
      exact append_nil _
    refine ⟨by rw [hnone, hran.turnCount], by rw [hnone, hran.saw], hran.maxHistory, fun hpos => ?_⟩
    rw [hhistory, Applied.messages, append_nil]
    exact hran.recent hpos
  | committed reply a h' tree =>
    have hone : successes (log ++ [⟨s.turnCount + 1, .ok (⟨.user, t.userContent, [], t.userTime⟩,
        ⟨.assistant, reply.content, reply.toolCalls, t.assistantTime⟩)⟩]) =
        successes log ++ [⟨s.turnCount + 1, .ok (⟨.user, t.userContent, [], t.userTime⟩,
          ⟨.assistant, reply.content, reply.toolCalls, t.assistantTime⟩)⟩] := hsucc
    refine ⟨?_, ?_, ?_, fun hpos => ?_⟩
    · rw [hone, length_append, length_singleton, appendAssistantMessage, turnCount_trim]
      have := hran.turnCount
      simp only [appendUserMessage]
      omega
    · rw [hone, map_append, hran.saw, length_append, length_singleton,
        range_succ, map_append, map_singleton, map_singleton, hran.turnCount]
      simp only [append_cancel_left_eq, cons.injEq, and_true]
      omega
    · rw [appendAssistantMessage, maxHistory_trim]
      exact hran.maxHistory
    · rw [hmessages rfl (hran.maxHistory ▸ hpos), hran.maxHistory, rtake_rtake, hhistory,
        ← append_assoc]
      exact rtake_append_congr (hran.recent hpos) _

theorem applyTurns_spec (ts : List (Turn S)) {pre : List Applied}
    (hran : Ran s₀ pre s) (hjson : JsonShaped s h) :
    ∃ log s' h', applyTurns ts s h = some (log, s', h') ∧ Ran s₀ (pre ++ log) s' ∧
      JsonShaped s' h' := by
  induction ts generalizing s h pre with
  | nil => exact ⟨[], s, h, rfl, by rwa [append_nil], hjson⟩
  | cons t ts ih =>
    obtain ⟨a, s₁, h₁, happly, hstep⟩ := applyTurn_spec t hjson
    obtain ⟨log, s', h', hrest, hran', hjson'⟩ := ih (hran.step hstep) (hstep.jsonShaped hjson)
    refine ⟨a :: log, s', h', by simp only [applyTurns, happly, hrest], ?_, hjson'⟩
    rwa [append_assoc] at hran'

def scribble : Build Unit where
  run _ a h :=
    (.error "failed", match h[a]? with
      | some ⟨_, .ref c :: _⟩ => h.set c ⟨.slice, []⟩
      | _ => h)
  grows _ a h := by
    dsimp only
    split <;> simp
  frame _ a h b _ hreach := by
    dsimp only
    split
    next label c rest hnode =>
      have hne : c ≠ b := fun heq => hreach (heq ▸ .step .refl hnode (List.mem_cons_self ..))
      rw [List.getElem?_set_ne hne]
    · rfl
  json _ _ _ _ hok := by cases hok

def answer : Build Unit where
  run _ _ h := (.ok ⟨"done", []⟩, h)
  grows _ _ _ := le_rfl
  frame _ _ _ _ _ _ := rfl
  json _ _ _ htree _ := htree

def nested : Heap Shape Unit := [⟨.map ["order"], [.ref 1]⟩, ⟨.map ["id"], [.scalar ()]⟩]

def nestedSession : Session :=
  { id := "s", agentName := "a", messages := [], turnCount := 3, vars := some 0, createdAt := 0,
    lastAccess := 0, ttl := 60, maxHistory := 3 }

end MockAgents.State
