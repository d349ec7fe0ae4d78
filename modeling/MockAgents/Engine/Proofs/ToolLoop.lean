import MockAgents.Engine.ToolLoop
/-!
# The convergence guard

When the guard recognises the calls of a response in the history, and what a request that
forces nothing gets in the end.
-/

namespace MockAgents.Engine

open Lib Lib.Utf8 List Option ToolCallSpec

section
variable {A : Type}
variable {results : List (RequestMessage A)}

/-! ## The tail of a history -/

theorem tailIsToolResult_append (before : List (RequestMessage A)) (hne : results ≠ [])
    (h : ∀ m ∈ results, m.isToolResult = true ∧ m.role ≠ bytes "system") :
    tailIsToolResult (before ++ results) = true := by
  obtain ⟨init, last, rfl⟩ := (eq_nil_or_concat' results).resolve_left hne
  obtain ⟨hresult, hrole⟩ := h last (by simp)
  rw [tailIsToolResult, ← append_assoc, reverse_append, reverse_singleton,
    singleton_append, find?_cons_of_pos (by simpa using hrole)]
  exact hresult

theorem lastEchoedToolCalls_append (before : List (RequestMessage A)) {m : RequestMessage A}
    (hm : m.toolCalls ≠ []) (h : ∀ m ∈ results, m.toolCalls = []) :
    lastEchoedToolCalls (before ++ [m] ++ results) = m.toolCalls := by
  have hresults : results.reverse.find? (fun m => !m.toolCalls.isEmpty) = none := by
    rw [find?_eq_none]
    intro r hr
    simp [h r (mem_reverse.mp hr)]
  rw [lastEchoedToolCalls, reverse_append, find?_append, hresults, reverse_append,
    reverse_singleton, singleton_append, find?_cons_of_pos (by simpa using hm)]
  rfl

variable (k : ArgsCodec A) [DecidableEq A]
variable {b : Bytes} {a m : A} {P : ToolCallSpec A → Prop} {tc : ToolChoice}

/-! ## Equal arguments -/

omit [DecidableEq A] in
theorem normalizeArgs_decoded {k : ArgsCodec A} (hk : k.Lawful)
    (h : k.unmarshal b = some m) : normalizeArgs k m = m := by
  obtain ⟨b', hmarshal, hunmarshal⟩ := hk.marshal_unmarshal b m h
  simp [normalizeArgs, hmarshal, hunmarshal]

theorem equalArgs_self (m : A) : equalArgs k m m = true := by
  simp [equalArgs]

/-- Arguments that JSON does not carry are not equal to an empty map it has read. -/
theorem equalArgs_ne {k : ArgsCodec A} (hk : k.Lawful) (ha : k.len a ≠ 0)
    (hlost : normalizeArgs k a = a) (hm : k.unmarshal b = some m) (hlen : k.len m = 0) :
    equalArgs k a m = false := by
  have hne : a ≠ m := by
    rintro rfl
    exact ha hlen
  simp [equalArgs, ha, hlost, normalizeArgs_decoded hk hm, hne]

/-! ## One call -/

/-- The arguments of a structured call survive as JSON. -/
def Readable (g : ToolCallSpec A) : Prop :=
  g.rawArguments = [] → k.len g.arguments = 0 ∨
    ∃ b m, k.marshal g.arguments = some b ∧ k.unmarshal b = some m

/-- The text of a call survives being written on the wire. -/
def WireSafe (g : ToolCallSpec A) : Prop :=
  valid g.name = true ∧
    (g.rawArguments ≠ [] → k.unmarshal g.rawArguments = none → valid g.rawArguments = true)

/-- The structured arguments of a call are those of its raw text, where that can be read. -/
def StoredAsSent (g : ToolCallSpec A) : Prop :=
  g.rawArguments ≠ [] → ∀ m, k.unmarshal g.rawArguments = some m → equalArgs k m g.arguments = true

omit [DecidableEq A] in
theorem echoToolCall_arguments {k : ArgsCodec A} (hk : k.Lawful) (name rawArgs : Bytes) :
    (echoToolCall k name rawArgs).arguments = (k.unmarshal rawArgs).getD k.nil := by
  by_cases h : rawArgs = []
  · simp [echoToolCall, h, hk.unmarshal_nothing]
  · simp [echoToolCall, h]

/-- A structured call is recognised in an echo of its own arguments when JSON carries them. -/
theorem equalArgs_echo_iff {k : ArgsCodec A} (hk : k.Lawful) {g : ToolCallSpec A}
    (hraw : g.rawArguments = []) :
    equalArgs k g.arguments ((k.unmarshal (g.argumentsJSON k)).getD k.nil) = true ↔
      Readable k g := by
  have hread : Readable k g ↔ k.len g.arguments = 0 ∨
      ∃ b m, k.marshal g.arguments = some b ∧ k.unmarshal b = some m := by
    simp [Readable, hraw]
  rw [hread]
  by_cases hlen : k.len g.arguments = 0
  · have hjson : g.argumentsJSON k = bytes "\x7b\x7d" := by
      simp [argumentsJSON, hraw, hlen]
    rw [hjson, hk.unmarshal_empty]
    simp [equalArgs, hk.len_empty, hlen]
  · cases hmarshal : k.marshal g.arguments with
    | none =>
      have hjson : g.argumentsJSON k = bytes "\x7b\x7d" := by
        simp [argumentsJSON, hraw, hlen, hmarshal]
      have hlost : normalizeArgs k g.arguments = g.arguments := by
        simp [normalizeArgs, hmarshal]
      rw [hjson, hk.unmarshal_empty, getD_some,
        equalArgs_ne hk hlen hlost hk.unmarshal_empty hk.len_empty]
      simp [hlen]
    | some b =>
      have hjson : g.argumentsJSON k = b := by
        simp [argumentsJSON, hraw, hlen, hmarshal]
      rw [hjson]
      cases hunmarshal : k.unmarshal b with
      | none =>
        have hlost : normalizeArgs k g.arguments = g.arguments := by
          simp [normalizeArgs, hmarshal, hunmarshal]
        rw [getD_none, equalArgs_ne hk hlen hlost hk.unmarshal_null hk.len_nil]
        simp [hlen, hunmarshal]
      | some m =>
        have hnormal : normalizeArgs k g.arguments = m := by
          simp [normalizeArgs, hmarshal, hunmarshal]
        have hequal : equalArgs k g.arguments m = true := by
          simp [equalArgs, hnormal, normalizeArgs_decoded hk hunmarshal]
        simp [hequal, hunmarshal]

theorem sameToolCall_iff (g : ToolCallSpec A) (e : EchoedToolCall A) :
    sameToolCall k g e = true ↔ g.name = e.name ∧
      (g.rawArguments = [] → equalArgs k g.arguments e.arguments = true) ∧
      (g.rawArguments ≠ [] → ∀ m, k.unmarshal g.rawArguments = some m →
        equalArgs k m e.arguments = true) ∧
      (g.rawArguments ≠ [] → k.unmarshal g.rawArguments = none →
        g.rawArguments = e.rawArguments) := by
  rw [sameToolCall, Bool.and_eq_true]
  by_cases hraw : g.rawArguments = []
  · simp [hraw]
  · cases hunmarshal : k.unmarshal g.rawArguments with
    | none => simp [hraw]
    | some m => simp [hraw]

/-- A call is recognised in an echo that reads as the call was sent, under the same name. -/
theorem sameToolCall_echo_iff {k : ArgsCodec A} (hk : k.Lawful) (g : ToolCallSpec A)
    (id name : Bytes) {text : Bytes} (htext : k.unmarshal text = k.unmarshal (g.argumentsJSON k)) :
    sameToolCall k g { echoToolCall k name text with id := id } = true ↔
      g.name = name ∧ Readable k g ∧
        (g.rawArguments ≠ [] → k.unmarshal g.rawArguments = none → g.rawArguments = text) := by
  have hargs := echoToolCall_arguments hk name text
  rw [htext] at hargs
  rw [sameToolCall_iff]
  refine and_congr_right fun _ => ?_
  rw [hargs]
  by_cases hraw : g.rawArguments = []
  · simp [hraw, equalArgs_echo_iff hk hraw]
  · have hjson : g.argumentsJSON k = g.rawArguments := by
      simp [argumentsJSON, hraw]
    have hparsed : ∀ m, k.unmarshal g.rawArguments = some m →
        equalArgs k m ((k.unmarshal g.rawArguments).getD k.nil) = true := by
      intro m hm
      rw [hm]
      exact equalArgs_self k m
    simp [hraw, hjson, Readable, echoToolCall]
    exact fun _ => hparsed

/-- A call kept in memory as it was sent. -/
theorem sameToolCall_kept_iff {k : ArgsCodec A} (hk : k.Lawful) (g : ToolCallSpec A) (id : Bytes) :
    sameToolCall k g { echoToolCall k g.name (g.argumentsJSON k) with id := id } = true ↔
      Readable k g := by
  rw [sameToolCall_echo_iff hk g id g.name rfl]
  refine ⟨fun h => h.2.1, fun h => ⟨rfl, h, fun hraw _ => ?_⟩⟩
  simp [argumentsJSON, hraw]

/-- A call that has been on the wire. -/
theorem sameToolCall_wire_iff {k : ArgsCodec A} (hk : k.Lawful) (g : ToolCallSpec A) (id : Bytes) :
    sameToolCall k g
        { echoToolCall k (coerce g.name) (coerce (g.argumentsJSON k)) with id := id } = true ↔
      Readable k g ∧ WireSafe k g := by
  rw [sameToolCall_echo_iff hk g id _ (hk.unmarshal_coerce _), eq_comm, coerce_eq_self_iff]
  have hsent : g.rawArguments ≠ [] →
      (g.rawArguments = coerce (g.argumentsJSON k) ↔ valid g.rawArguments = true) := by
    intro hraw
    rw [← coerce_eq_self_iff, eq_comm, argumentsJSON, if_pos hraw]
  have hwire : (g.rawArguments ≠ [] → k.unmarshal g.rawArguments = none →
        g.rawArguments = coerce (g.argumentsJSON k)) ↔
      (g.rawArguments ≠ [] → k.unmarshal g.rawArguments = none → valid g.rawArguments = true) :=
    forall_congr' fun hraw => forall_congr' fun _ => hsent hraw
  rw [hwire]
  exact ⟨fun h => ⟨h.2.1, h.1, h.2.2⟩, fun h => ⟨h.2.1, h.1, h.2.2⟩⟩

/-! ## All calls -/

theorem all_zip_mapIdx {X Y : Type} (p : X × Y → Bool) (f : Nat → X → Y) (xs : List X) :
    (xs.zip (xs.mapIdx f)).all p = true ↔ ∀ i x, xs[i]? = some x → p (x, f i x) = true := by
  induction xs generalizing f with
  | nil => simp
  | cons x xs ih =>
    rw [mapIdx_cons, zip_cons_cons, all_cons, Bool.and_eq_true, ih]
    constructor
    · rintro ⟨hhead, htail⟩ (_ | i) y hy
      · cases hy
        exact hhead
      · exact htail i y hy
    · exact fun h => ⟨h 0 x rfl, fun i y hy => h (i + 1) y hy⟩

theorem sameToolCalls_mapIdx_iff {gen : List (ToolCallSpec A)} (hne : gen ≠ [])
    (f : Nat → ToolCallSpec A → EchoedToolCall A)
    (h : ∀ i g, sameToolCall k g (f i g) = true ↔ P g) :
    sameToolCalls k gen (gen.mapIdx f) = true ↔ ∀ g ∈ gen, P g := by
  have hecho : gen.mapIdx f ≠ [] := by simpa using hne
  simp only [sameToolCalls, length_mapIdx, decide_true, Bool.and_true, Bool.and_eq_true,
    Bool.not_eq_true', isEmpty_eq_false_iff, all_zip_mapIdx, h]
  constructor
  · rintro ⟨-, hall⟩ g hg
    obtain ⟨i, hi⟩ := mem_iff_getElem?.mp hg
    exact hall i g hi
  · exact fun hall => ⟨hecho, fun i g hi => hall g (mem_of_getElem? hi)⟩

/-- Of calls that come back one message each the guard sees only the last. -/
theorem sameToolCalls_last_iff {init : List (ToolCallSpec A)} {last : ToolCallSpec A}
    {e : EchoedToolCall A} (h : sameToolCall k last e = true ↔ P last) :
    sameToolCalls k (init ++ [last]) [e] = true ↔
      (init ++ [last]).length ≤ 1 ∧ ∀ g ∈ init ++ [last], P g := by
  cases init with
  | nil => simp [sameToolCalls, h]
  | cons g init => simp [sameToolCalls]

/-! ## What a request gets -/

omit [DecidableEq A] in
theorem capParallel_toolCalls (tc : ToolChoice) (mode : StrictMode) (resp : Response A)
    (hnone : tc.none = false) :
    (capParallel tc mode resp).1.toolCalls = guardCalls mode tc resp.toolCalls := by
  simp only [capParallel, guardCalls, hnone, Bool.not_false, true_and]
  by_cases hmode : mode = .enforce
  · by_cases hcap : tc.parallelDisabled = true ∧ 1 < resp.toolCalls.length <;> simp [hmode, hcap]
  · by_cases hcap : tc.parallelDisabled = true ∧ 1 < resp.toolCalls.length <;> simp [hmode, hcap]

omit [DecidableEq A] in
theorem guardCalls_nil (mode : StrictMode) (tc : ToolChoice) :
    guardCalls mode tc ([] : List (ToolCallSpec A)) = [] := by
  simp [guardCalls]

omit [DecidableEq A] in
theorem guardCalls_eq_nil_iff (mode : StrictMode) (tc : ToolChoice)
    (calls : List (ToolCallSpec A)) : guardCalls mode tc calls = [] ↔ calls = [] := by
  rw [guardCalls]
  split <;> simp

omit [DecidableEq A] in
/-- The strict tool choice hands out what the guard compares. -/
theorem applyStrictToolChoice_toolCalls (mode : StrictMode)
    (hforce : tc.required = false) (hnone : tc.none = false) (ctx : ToolContext)
    (resp : Response A) : (applyStrictToolChoice k tc mode ctx resp).1.toolCalls =
      guardCalls mode tc resp.toolCalls := by
  by_cases hoff : mode = .off
  · simp [applyStrictToolChoice, guardCalls, hoff]
  · have happly : (applyStrictToolChoice k tc mode ctx resp).1 = (capParallel tc mode resp).1 := by
      simp [applyStrictToolChoice, hoff, hnone, hforce]
    rw [happly, capParallel_toolCalls tc mode resp hnone]

/-- **A request that forces no tool** gets the calls the client may see, unless it forbids
calls or the guard consumes them. -/
theorem settleToolCalls_toolCalls (mode : StrictMode)
    (hforce : tc.required = false) (ctx : ToolContext) (messages : List (RequestMessage A))
    (resp : Response A) : (settleToolCalls k mode tc ctx messages resp).1.toolCalls =
      if tc.none ∨ consumed k mode tc messages resp.toolCalls then []
      else guardCalls mode tc resp.toolCalls := by
  by_cases hnone : tc.none = true
  · simp [settleToolCalls, applyStrictToolChoice, hnone]
  · have hnone : tc.none = false := by simpa using hnone
    have hsettle : (settleToolCalls k mode tc ctx messages resp).1.toolCalls =
        guardCalls mode tc
          (if consumed k mode tc messages resp.toolCalls then [] else resp.toolCalls) := by
      by_cases hoff : mode = .off
      · by_cases hconsumed : consumed k mode tc messages resp.toolCalls = true <;>
          simp_all [settleToolCalls, guardCalls]
      · simp only [settleToolCalls, hnone, Bool.false_eq_true, if_false, ne_eq, hoff,
          not_false_eq_true, if_true]
        rw [applyStrictToolChoice_toolCalls k mode hforce hnone]
        split <;> rfl
    rw [hsettle]
    by_cases hconsumed : consumed k mode tc messages resp.toolCalls = true <;>
      simp [hnone, hconsumed, guardCalls_nil]

end

end MockAgents.Engine
