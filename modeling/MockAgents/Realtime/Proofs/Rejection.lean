import MockAgents.Realtime.Proofs.Frames
import MockAgents.Realtime.Exact
/-!
# Rejected events

An event answered by nothing but an error leaves the session as it was, but for the
id counter and the id of the event — unless it counts as user activity: an item or
a response request clears the idle timeout before it is checked.
-/

namespace MockAgents.Realtime

variable {F : Type}
variable (env : Env F)

def Event.errorBody {ι : Type} : Event F ι → Option ErrorBody
  | .error e => some e
  | _ => none

theorem eq_error_of_errorBody {ι : Type} {out : List (Event F ι)} {e : ErrorBody}
    (h : out.map Event.errorBody = [some e]) : out = [.error e] := by
  obtain ⟨ev, rfl, hev⟩ := List.map_eq_singleton_iff.mp h
  cases ev <;> first
    | exact congrArg (fun e => [Event.error e]) (Option.some.inj hev)
    | exact absurd hev (by simp [Event.errorBody])

namespace Session

def OnlyIDs (s s' : Session F) (eventID : String) : Prop :=
  ∃ n, s' = { s with counter := n, lastClientEventID := eventID }

def Rejected (out : List (Event F ItemRef)) : Prop := ∃ e, out = [.error e]

theorem not_rejected {out : Events F} (ev : Event F ItemRef) (hmem : ev ∈ out)
    (hev : ∀ e, ev ≠ .error e) : ¬ Rejected out := by
  intro ⟨e, heq⟩
  rw [heq, List.mem_singleton] at hmem
  exact hev e hmem

theorem not_rejected_nil : ¬ Rejected ([] : Events F) := by
  intro ⟨e, heq⟩
  cases heq

variable {s : Session F} {ce : ClientEvent}

theorem stamp_rejected {out : Events F} {e : ErrorBody}
    (h : (s.stamp out).2.map (·.event) = [.error e]) : Rejected out := by
  rw [stamp_events] at h
  obtain ⟨ev, rfl, hev⟩ := List.map_eq_singleton_iff.mp h
  cases ev <;> first
    | exact ⟨_, rfl⟩
    | exact absurd hev (by simp [Event.map])

/-! ## Response requests -/

theorem emitResponse_not_rejected (s : Session F) (respID : String) (plan : Plan) :
    ¬ Rejected (s.emitResponse env respID plan).2 := by
  have hopen : Event.responseCreated (s.responseObject respID .inProgress [] plan.rc) ∈
      s.openingEvents respID plan := List.mem_cons_self
  unfold emitResponse
  dsimp only
  split
  · exact not_rejected _ hopen (by simp)
  · exact not_rejected _ (List.mem_append_left _ (List.mem_append_left _ hopen)) (by simp)

theorem createResponse_rejected (h : Rejected (s.createResponse env ce).2) :
    (s.createResponse env ce).1 = s := by
  rcases s.createResponse_cases env ce with ⟨e, hr⟩ | ⟨-, hr⟩
  · rw [hr]
  · generalize s.createResponse env ce = r at h hr
    cases hr with
    | failed => exact absurd h (not_rejected (.responseCreated _) List.mem_cons_self (by simp))
    | emitted => exact absurd h (emitResponse_not_rejected env _ _ _)

/-! ## Item requests -/

/-- The two fields an item request clears before any check. -/
def touched (s : Session F) : Session F := { s with idleAt := 0, idleFired := false }

theorem addItem_rejected {it : ParsedItem} {id after : String}
    (h : Rejected (s.addItem env it id after).2) : (s.addItem env it id after).1 = s := by
  revert h
  unfold addItem
  split
  · exact fun _ => rfl
  · exact fun h => absurd h (not_rejected (.itemAdded _ _) List.mem_cons_self (by simp))

theorem createItem_rejected (h : Rejected (s.createItem env ce).2) :
    ∃ n, (s.createItem env ce).1 = { s.touched with counter := n } := by
  revert h
  have hsame : ∃ n, s.touched = { s.touched with counter := n } := ⟨s.counter, rfl⟩
  unfold createItem
  dsimp only
  split
  · exact fun _ => hsame
  · split
    · intro h
      rw [addItem_rejected env h]
      exact ⟨_, rfl⟩
    · split
      · exact fun _ => hsame
      · intro h
        rw [addItem_rejected env h]
        exact hsame

/-! ## Other items, cancellation and audio -/

theorem deleteItem_rejected {id : String} (h : Rejected (s.deleteItem env id).2) :
    (s.deleteItem env id).1 = s := by
  revert h
  unfold deleteItem
  split
  · exact fun _ => rfl
  · exact fun h => absurd h (not_rejected (.itemDeleted id) (List.mem_singleton_self _) (by simp))

theorem truncateItem_rejected (h : Rejected (s.truncateItem env ce).2) :
    (s.truncateItem env ce).1 = s := by
  have hack : ∀ ms ms', ¬ Rejected ([.itemTruncated ce.itemID ms ms'] : Events F) :=
    fun _ _ => not_rejected _ (List.mem_singleton_self _) (by simp)
  revert h
  unfold truncateItem
  split
  · exact fun _ => rfl
  · dsimp only
    split
    · exact fun h => absurd h (hack _ _)
    · split
      · exact fun h => absurd h (hack _ _)
      · exact fun _ => rfl

theorem cancelResponse_rejected (h : Rejected (s.cancelResponse env ce).2) :
    (s.cancelResponse env ce).1 = s := by
  have hdone : ∀ inf, ∃ r, Event.responseDone r ∈ (s.cancelInflight inf .clientCancelled).2 :=
    fun inf => ⟨_, List.mem_append_right _ (List.mem_singleton_self _)⟩
  revert h
  unfold cancelResponse
  dsimp only
  split
  · exact fun _ => rfl
  next inf _ =>
    obtain ⟨r, hr⟩ := hdone inf
    split
    · split
      · exact fun h => absurd h (not_rejected _ (List.mem_append_left _ hr) (by simp))
      · exact fun h => absurd h (not_rejected _ hr (by simp))
    · exact fun _ => rfl

variable [GoFloat F]

theorem commitBuffer_rejected (h : Rejected (s.commitBuffer env).2) :
    (s.commitBuffer env).1 = s := by
  revert h
  unfold commitBuffer
  dsimp only
  split
  · exact fun _ => rfl
  · split
    · exact fun _ => rfl
    · exact fun h => absurd h (not_rejected (.bufferCommitted _ _) List.mem_cons_self (by simp))

theorem vadStart_not_rejected (s : Session F) (v : VadState F) (startMs ms : F) :
    ¬ Rejected (s.vadStart v startMs ms).2 := by
  unfold vadStart
  dsimp only
  split
  · exact not_rejected (.speechStarted _ _) List.mem_cons_self (by simp)
  · split <;> exact not_rejected (.speechStarted _ _) List.mem_cons_self (by simp)

theorem appendAudio_not_rejected (s : Session F) (audio : Lib.Bytes) :
    ¬ Rejected (s.appendAudio env audio).2 := by
  unfold appendAudio
  dsimp only
  split
  · exact not_rejected_nil
  · unfold vadAppend
    dsimp only
    split
    · split
      · exact vadStart_not_rejected _ _ _ _
      · exact not_rejected_nil
    · split
      · exact not_rejected_nil
      · split
        · exact not_rejected_nil
        · unfold vadEndOfTurn
          dsimp only
          split <;> exact not_rejected (.speechStopped _ _) List.mem_cons_self (by simp)

/-! ## Every rejection -/

/-- The rejected request is no user activity or finds the idle timeout at rest: an
item request finds no deadline and the flag down; a response request stops at its
first two checks or finds the flag down. -/
def QuietlyRejected (env : Env F) (s : Session F) (ce : ClientEvent) : Prop :=
  (ce.type = .itemCreate → s.idleAt = 0 ∧ s.idleFired = false) ∧
    (ce.type = .responseCreate → s.isTranscription = true ∨ invalidOverride env ce.response = true ∨
      s.idleFired = false)

theorem updateSession_rejected {raw : Raw} (h : Rejected (s.updateSession env raw).2)
    : (s.updateSession env raw).1 = s := by
  revert h
  unfold updateSession
  split
  · exact fun _ => rfl
  · exact fun h => absurd h (not_rejected (.sessionUpdated _) (List.mem_singleton_self _) (by simp))

/-- What a rejected event did: an item request cleared both idle fields, a response
request past its first two checks cleared the flag, anything else did nothing. -/
theorem dispatch_rejected (h : Rejected (s.dispatch env ce).2) :
    (ce.type = .itemCreate ∧ ∃ n, (s.dispatch env ce).1 = { s.touched with counter := n }) ∨
      (ce.type = .responseCreate ∧ s.isTranscription = false ∧
        invalidOverride env ce.response = false ∧
        (s.dispatch env ce).1 = { s with idleFired := false }) ∨
      (ce.type ≠ .itemCreate ∧ (ce.type = .responseCreate → s.isTranscription = true ∨
        invalidOverride env ce.response = true) ∧ (s.dispatch env ce).1 = s) := by
  by_cases hitem : ce.type = .itemCreate
  · simp only [dispatch, hitem] at h ⊢
    exact .inl ⟨trivial, createItem_rejected env h⟩
  by_cases hresp : ce.type = .responseCreate
  · simp only [dispatch, hresp] at h ⊢
    refine .inr ?_
    cases ht : s.isTranscription with
    | true => exact .inr ⟨by simp, fun _ => .inl rfl, by simp [requestResponse, ht]⟩
    | false =>
      cases hov : invalidOverride env ce.response with
      | true => exact .inr ⟨by simp, fun _ => .inr rfl, by simp [requestResponse, ht, hov]⟩
      | false =>
        simp only [requestResponse, ht, hov, Bool.false_eq_true, if_false] at h ⊢
        exact .inl ⟨trivial, trivial, trivial, createResponse_rejected env h⟩
  refine .inr (.inr ⟨hitem, fun heq => absurd heq hresp, ?_⟩)
  revert h
  unfold dispatch
  split
  · exact updateSession_rejected env
  · exact fun h => absurd h (appendAudio_not_rejected env s _)
  · exact fun h => absurd h (not_rejected .bufferCleared (List.mem_singleton_self _) (by simp))
  · exact commitBuffer_rejected env
  · exact absurd ‹_› hitem
  · exact absurd ‹_› hresp
  · unfold retrieveItem
    split <;> exact fun _ => rfl
  · exact deleteItem_rejected env
  · exact truncateItem_rejected env
  · exact cancelResponse_rejected env
  · exact fun _ => rfl

end Session

open Session

variable [GoFloat F]

/-- An event answered by one error changes nothing but the id counter and the last
client event id exactly when the request was quietly rejected. -/
theorem rejected_noop_iff (env : Env F) (s : Session F) (ce : ClientEvent) (e : ErrorBody)
    (h : (s.handle env ce).2.map (·.event) = [.error e]) :
    s.OnlyIDs (s.handle env ce).1 ce.eventID ↔ s.QuietlyRejected env ce := by
  have hrej : Rejected (dispatch env { s with lastClientEventID := ce.eventID } ce).2 :=
    stamp_rejected h
  obtain ⟨n, hstamp⟩ := stamp_counter (dispatch env { s with lastClientEventID := ce.eventID } ce).1
    (dispatch env { s with lastClientEventID := ce.eventID } ce).2
  have hstate : (s.handle env ce).1 =
      { (dispatch env { s with lastClientEventID := ce.eventID } ce).1 with counter := n } := hstamp
  rcases dispatch_rejected env hrej with ⟨hitem, m, hd⟩ | ⟨hresp, ht, hov, hd⟩ | ⟨hitem, hresp, hd⟩
  · rw [hd] at hstate
    constructor
    · intro ⟨k, hk⟩
      rw [hstate] at hk
      refine ⟨fun _ => ⟨?_, ?_⟩, fun hr => absurd (hitem.symm.trans hr) (by simp)⟩
      · exact (congrArg Session.idleAt hk).symm
      · exact (congrArg Session.idleFired hk).symm
    · intro hq
      obtain ⟨hat, hfired⟩ := hq.1 hitem
      exact ⟨n, by rw [hstate, touched, ← hat, ← hfired]⟩
  · rw [hd] at hstate
    constructor
    · intro ⟨k, hk⟩
      rw [hstate] at hk
      refine ⟨fun hi => absurd (hresp.symm.trans hi) (by simp), fun _ => .inr (.inr ?_)⟩
      exact (congrArg Session.idleFired hk).symm
    · intro hq
      have hfired : s.idleFired = false := by
        rcases hq.2 hresp with h | h | h
        · exact absurd (ht.symm.trans h) (by simp)
        · exact absurd (hov.symm.trans h) (by simp)
        · exact h
      exact ⟨n, by rw [hstate, ← hfired]⟩
  · rw [hd] at hstate
    refine iff_of_true ⟨n, hstate⟩ ⟨fun h => absurd h hitem, fun h => ?_⟩
    exact (hresp h).imp_right .inl

/-! ## A rejected item request disarms the deadline -/

section
open Lib

def robotItem : Raw := Utf8.bytes "\x7b\"role\":\"robot\"\x7d"

def robotEnv : Env Rat :=
  answering (Utf8.bytes "Hello") (idleDecoders [] [(robotItem, { role := "robot" })])

def robotRequest : ClientEvent := { type := .itemCreate, item := robotItem }

def robotError : ErrorBody :=
  { type := "invalid_request_error", code := some "invalid_value"
    message := "invalid role \"robot\" for a message item", param := some "item.role", eventID := none }

def robotSession : Session Rat := ({ id := "sess_1" } : Setup).session robotEnv

def armedSession : Session Rat :=
  robotSession.run robotEnv
    [.handle { type := .sessionUpdate, session := idlePayload }, .handle { type := .responseCreate }]

end

/-- Before any response the rejected item is a no-op. -/
theorem rejected_noop_fresh :
    robotSession.OnlyIDs (robotSession.handle robotEnv robotRequest).1 "" := by
  refine (rejected_noop_iff robotEnv robotSession robotRequest robotError ?_).mpr ⟨fun _ => ?_, ?_⟩
  · apply eq_error_of_errorBody
    decide +kernel
  · decide +kernel
  · intro h
    exact absurd h (by simp [robotRequest])

/-- With the deadline armed the item is rejected all the same, and the deadline is gone. -/
theorem rejected_item_disarms :
    (armedSession.handle robotEnv robotRequest).2.map (·.event) = [.error robotError] ∧
      armedSession.idleAt = 5000000001 ∧ (armedSession.handle robotEnv robotRequest).1.idleAt = 0 := by
  refine ⟨?_, ?_, ?_⟩
  · apply eq_error_of_errorBody
    decide +kernel
  · decide +kernel
  · decide +kernel

end MockAgents.Realtime
