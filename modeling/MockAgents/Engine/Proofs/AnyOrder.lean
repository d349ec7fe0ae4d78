import MockAgents.Engine.ToolProcessor
/-!
# Tool calls in any order

Every goroutine of `ProcessToolCalls` writes what `processOne` returned to the places of its own
call, so that the inline loop and every schedule of the goroutines leave the same results.
-/

namespace MockAgents.Engine

open Lib Lib.JsonValue Config Realtime List

/-! ## The inline path -/

theorem foldl_set_zipIdx {α β ε : Type} [DecidableEq ε] (one : α × Nat → β) (err : α × Nat → Option ε)
    (l : List α) (before after : List β) (hlength : after.length = l.length) (first : Option ε) :
    (l.zipIdx before.length).foldl (fun out x => (out.1.set x.2 (one x),
        if out.2 = none then err x else out.2)) (before ++ after, first) =
      (before ++ (l.zipIdx before.length).map one,
        first.or ((l.zipIdx before.length).findSome? err)) := by
  induction l generalizing before after first with
  | nil =>
    rw [length_eq_zero_iff.mp hlength]
    simp
  | cons a l ih =>
    obtain ⟨b, after, rfl⟩ := exists_cons_of_length_eq_add_one hlength
    have hnext := ih (before ++ [one (a, before.length)]) after (by simpa using hlength)
      (if first = none then err (a, before.length) else first)
    rw [length_append, length_singleton, append_assoc, append_assoc] at hnext
    rw [zipIdx_cons, foldl_cons, set_append_right _ _ le_rfl, Nat.sub_self, set_cons_zero]
    simp only [singleton_append] at hnext
    rw [hnext, map_cons, findSome?_cons]
    cases first with
    | none => cases err (a, before.length) <;> rfl
    | some e => rfl

/-! ## The goroutines -/

variable {N F : Type} [GoFloat F]

def outcome (env : ToolEnv N F) (draw : Nat → ToolDraw) (tools : List (ToolDefinition N F))
    (call : ToolCallSpec (Object N) × Nat) : ToolCallResult N × Option ToolFailure :=
  processOne env (draw call.2) call.1 (indexTools tools)

/-- The goroutine of a call and its places in the slices, after so many of its steps. -/
def place (one : ToolCallResult N × Option ToolFailure) (call : ToolCallSpec (Object N) × Nat) :
    Nat → Goroutine N × ToolCallResult N × Option ToolFailure
  | 0 => (.process call.2 call.1, zeroResult, none)
  | 1 => (.report call.2 one.2, one.1, none)
  | _ => (.done, one)

/-- After steps in some order, every goroutine has written to its own places and no others. -/
def Gathered (one : ToolCallSpec (Object N) × Nat → ToolCallResult N × Option ToolFailure)
    (toolCalls : List (ToolCallSpec (Object N))) (order : List Nat) (w : Pool (Slices N) (Goroutine N)) :
    Prop :=
  ∀ i, (w.calls[i]?, w.shared.results[i]?, w.shared.errs[i]?) =
    match toolCalls.zipIdx[i]? with
    | none => (none, none, none)
    | some call =>
      let p := place (one call) call (order.count i)
      (some p.1, some p.2.1, some p.2.2)

variable {env : ToolEnv N F} {draw : Nat → ToolDraw} {tools : List (ToolDefinition N F)}
  {toolCalls : List (ToolCallSpec (Object N))} {order : List Nat} {w : Pool (Slices N) (Goroutine N)}

theorem Gathered.step (h : Gathered (outcome env draw tools) toolCalls order w) (k : Nat) :
    Gathered (outcome env draw tools) toolCalls (order ++ [k])
      ((goroutines env draw tools).act w (.step k ())) := by
  intro i
  have hi := h i
  have hk := h k
  have hcount : (order ++ [k]).count i = order.count i + if k = i then 1 else 0 := by
    simp [count_append, count_singleton]
  rw [hcount]
  cases hcall : toolCalls.zipIdx[k]? with
  | none =>
    simp only [hcall, Prod.mk.injEq] at hk
    rw [System.act_step_none hk.1, hi]
    by_cases heq : k = i
    · simp only [← heq, hcall]
    · rw [if_neg heq, Nat.add_zero]
  | some call =>
    obtain ⟨c, -, rfl⟩ : ∃ c, toolCalls[k]? = some c ∧ (c, k) = call := by
      simpa [getElem?_zipIdx] using hcall
    simp only [hcall, Prod.mk.injEq] at hk
    obtain ⟨hg, hr, he⟩ := hk
    rw [System.act_step_eq hg]
    by_cases heq : k = i
    · subst heq
      have hset : ∀ {α : Type} {l : List α} {a : α}, l[k]? = some a → ∀ b, (l.set k b)[k]? = some b :=
        fun h _ => getElem?_set_self (List.getElem?_eq_some_iff.mp h).1
      rw [if_pos rfl]
      rcases hn : order.count k with _ | _ | n
      all_goals
        simp only [hn, place] at hr he
        simp [hcall, place, outcome, goroutines, hset hg, hset hr, hset he, hr, he]
    · rw [if_neg heq, Nat.add_zero, ← hi]
      rcases order.count k with _ | _ | n <;> simp [getElem?_set_ne heq, place, goroutines]

theorem gathered_run (order : List Nat) : Gathered (outcome env draw tools) toolCalls order
    ((goroutines env draw tools).run (spawned toolCalls) (order.map (.step · ()))) := by
  induction order using reverseRecOn with
  | nil =>
    intro i
    cases hcall : toolCalls[i]? with
    | none => simp [spawned, List.getElem?_eq_none_iff.mp hcall]
    | some call =>
      obtain ⟨hlt, rfl⟩ := List.getElem?_eq_some_iff.mp hcall
      simp [spawned, place, hlt]
  | append_singleton order k ih =>
    rw [map_append, System.run_append]
    exact ih.step k

theorem Gathered.shared_eq {one : ToolCallSpec (Object N) × Nat → ToolCallResult N × Option ToolFailure}
    (h : Gathered one toolCalls order w) (horder : ∀ i < toolCalls.length, 2 ≤ order.count i) :
    w.shared = ⟨toolCalls.zipIdx.map fun call => (one call).1, toolCalls.zipIdx.map fun call => (one call).2⟩ := by
  have hplaces : ∀ i : Nat, w.shared.results[i]? = (toolCalls.zipIdx.map fun call => (one call).1)[i]? ∧
      w.shared.errs[i]? = (toolCalls.zipIdx.map fun call => (one call).2)[i]? := by
    intro i
    have hi := h i
    rw [getElem?_map, getElem?_map]
    cases hcall : toolCalls.zipIdx[i]? with
    | none =>
      simp only [hcall, Prod.mk.injEq] at hi
      exact hi.2
    | some call =>
      have hlt := (List.getElem?_eq_some_iff.mp hcall).1
      obtain ⟨n, hn⟩ := Nat.exists_eq_add_of_le' (horder i (by simpa using hlt))
      simp only [hcall, hn, place, Prod.mk.injEq] at hi
      exact hi.2
  obtain ⟨⟨results, errs⟩, calls⟩ := w
  exact congrArg₂ Slices.mk (ext_getElem? fun i => (hplaces i).1) (ext_getElem? fun i => (hplaces i).2)

/-- **The schedule does not matter**: the inline loop and the goroutines, in every order in which
each of them takes its two steps, return the result of `processOne` for each call and the first
error by index that is not of parameter validation. -/
theorem processToolCalls_any_order (env : ToolEnv N F) (draw : Nat → ToolDraw)
    (toolCalls : List (ToolCallSpec (Object N))) (tools : List (ToolDefinition N F)) :
    processInline env draw toolCalls tools = processToolCalls env draw toolCalls tools ∧
    ∀ order : List Nat, (∀ i < toolCalls.length, 2 ≤ order.count i) →
      ((goroutines env draw tools).run (spawned toolCalls) (order.map (.step · ()))).shared.collect =
        processToolCalls env draw toolCalls tools := by
  have hreturned : processToolCalls env draw toolCalls tools =
      (toolCalls.zipIdx.map fun call => (outcome env draw tools call).1,
        toolCalls.zipIdx.findSome? fun call => ToolFailure.fatal (outcome env draw tools call).2) := by
    simp only [processToolCalls, map_map, findSome?_map]
    rfl
  rw [hreturned]
  refine ⟨foldl_set_zipIdx (fun call => (outcome env draw tools call).1)
    (fun call => ToolFailure.fatal (outcome env draw tools call).2) toolCalls []
    (replicate toolCalls.length zeroResult) length_replicate none, fun order horder => ?_⟩
  rw [(gathered_run order).shared_eq horder, Slices.collect, findSome?_map]
  rfl

end MockAgents.Engine
