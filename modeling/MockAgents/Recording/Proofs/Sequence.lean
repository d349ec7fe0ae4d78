import MockAgents.Recording.Proofs.Replay
/-!
# The order in which replay serves

Requests resolve to a key while the proxy appends to the cassette.  Nothing is assumed of the
cassette, of the digest or of the schedule:

* the match index groups, by their keys, the interactions it has been built over;
* a request is served the interaction after those the earlier requests of its key moved past, and
  the last one of its sequence when there is none.

A repeat of the last interaction does not move the cursor, so a sequence that grows after repeats
goes on where it stopped.  The place is the number of the request only while no earlier request
had to repeat below it.
-/

namespace MockAgents.Recording

open Lib Lib.Utf8 List Replay Nat System

variable {N : Type} {env : Env N} {m : Matcher}

/-! ## The cursor -/

def Replay.place (s : Replay) (key : Bytes) : Nat := (s.cursor.lookup key).getD 0

/-- The position after a request that finds so many interactions. -/
def pass (place available : Nat) : Nat := if place < available then place + 1 else place

section Cursor
variable (s : Replay) (key : Bytes) (first : Recorded) (rest : List Recorded)

theorem place_advance :
    (s.advance key first rest).1.place key = pass (s.place key) (first :: rest).length := by
  unfold advance pass
  dsimp only
  split
  next e he =>
    have hlt := (List.getElem?_eq_some_iff.mp he).choose
    rw [place, AList.lookup_insert]
    exact (if_pos hlt).symm
  next hnone => exact (if_neg (not_lt.mpr (List.getElem?_eq_none_iff.mp hnone))).symm

theorem place_advance_of_ne {other : Bytes} (hne : other ≠ key) :
    (s.advance key first rest).1.place other = s.place other := by
  unfold advance
  dsimp only
  split
  · rw [place, AList.lookup_insert_ne hne, place]
  · rfl

theorem advance_serves :
    (first :: rest)[min (s.place key) ((first :: rest).length - 1)]? =
      some (s.advance key first rest).2 := by
  unfold advance
  dsimp only
  split
  next e he =>
    have hlt := (List.getElem?_eq_some_iff.mp he).choose
    have hmin : min (s.place key) ((first :: rest).length - 1) = (s.cursor.lookup key).getD 0 :=
      min_eq_left (le_sub_one_of_lt hlt)
    rw [hmin, he]
  next hnone =>
    have hle : (first :: rest).length - 1 ≤ s.place key :=
      le_trans (sub_le _ _) (List.getElem?_eq_none_iff.mp hnone)
    rw [min_eq_right hle, ← getLast?_eq_getElem?, getLast?_eq_some_getLast]

end Cursor

/-! ## Resolved requests -/

/-- A request that moves its cursor: the key, the sequence that was looked up, and what is
served. -/
structure Resolved where
  key : Bytes
  seq : List Recorded
  served : Recorded

def resolved (w : Pool Replay Task) : Act Call Unit → Option Resolved
  | .start _ => none
  | .step i _ =>
    match w.calls[i]? with
    | some (.found _ key first rest) => some ⟨key, first :: rest, (w.shared.advance key first rest).2⟩
    | _ => none

/-- The requests of a run that resolve to a key, in the order of the cursor's lock. -/
def resolvedTo (env : Env N) (m : Matcher) (w : Pool Replay Task) (acts : List (Act Call Unit))
    (key : Bytes) : List Resolved :=
  ((replay env m).observed resolved w acts).filter fun x => x.key = key

/-- The position after some requests of a key, from how many interactions each of them found. -/
def position (place : Nat) (requests : List Resolved) : Nat :=
  (requests.map (·.seq.length)).foldl pass place

theorem place_act (w : Pool Replay Task) (a : Act Call Unit) (key : Bytes) :
    ((replay env m).act w a).shared.place key =
      position (w.shared.place key) ((resolved w a).toList.filter fun x => x.key = key) := by
  cases a with
  | start call => rfl
  | step i choice =>
    cases hi : w.calls[i]? with
    | none =>
      rw [act_step_none hi, resolved, hi]
      rfl
    | some t =>
      rw [(act_step hi choice).1, resolved, hi]
      cases t with
      | record p q answer now =>
        simp only [replay, Task.next]
        split <;> rfl
      | index r =>
        simp only [replay, Task.next, extendMatchIndex]
        split <;> rfl
      | found r found first rest =>
        by_cases hkey : found = key
        · subst hkey
          simpa [position, replay, Task.next] using place_advance w.shared found first rest
        · simpa [position, replay, Task.next, hkey] using
            place_advance_of_ne w.shared found first rest (Ne.symm hkey)
      | exact | legacy | recorded | served | missed | refused => rfl

/-- An action resolves no request of a key or one. -/
theorem resolved_cases (w : Pool Replay Task) (a : Act Call Unit) (key : Bytes) :
    ((resolved w a).toList.filter fun x => x.key = key) = [] ∨
      ∃ y, resolved w a = some y ∧ y.key = key ∧ ((resolved w a).toList.filter fun x => x.key = key) = [y] := by
  cases resolved w a with
  | none => exact .inl rfl
  | some y =>
    by_cases hkey : y.key = key
    · exact .inr ⟨y, rfl, hkey, by simp [hkey]⟩
    · exact .inl (by simp [hkey])

variable {x : Resolved} {w : Pool Replay Task}
variable {a : Act Call Unit} {s : Replay} {t : Task} {r : ClientRequest} {key : Bytes}
variable {first : Recorded} {rest : List Recorded}

/-- What an action resolves is served at the cursor. -/
theorem resolved_serves (h : resolved w a = some x) :
    x.seq[min (w.shared.place x.key) (x.seq.length - 1)]? = some x.served := by
  unfold resolved at h
  split at h
  · cases h
  · split at h
    next r key first rest _ =>
      cases h
      exact advance_serves w.shared key first rest
    next => cases h

/-- Every request of a key is served where the earlier ones of the key left the cursor. -/
theorem resolvedTo_serves (w : Pool Replay Task) (acts : List (Act Call Unit)) (key : Bytes)
    (n : Nat) (hx : (resolvedTo env m w acts key)[n]? = some x) :
    x.seq[min (position (w.shared.place key) ((resolvedTo env m w acts key).take n)) (x.seq.length - 1)]? =
      some x.served := by
  induction acts generalizing w n with
  | nil => cases hx
  | cons a acts ih =>
    have hplace : ((replay env m).act w a).shared.place key = _ := place_act w a key
    rw [resolvedTo, observed, filter_append] at hx ⊢
    rcases resolved_cases w a key with hnone | ⟨y, hy, hkey, hone⟩
    · rw [hnone] at hx hplace ⊢
      have hrest := ih _ n hx
      rw [hplace] at hrest
      exact hrest
    · rw [hone] at hx hplace ⊢
      cases n with
      | zero =>
        cases hx
        subst hkey
        exact resolved_serves hy
      | succ n =>
        have hrest := ih _ n hx
        rw [hplace] at hrest
        exact hrest

/-! ## The sequences looked up -/

/-- The interactions recorded for a key, in a lookup by match key or by hash. -/
def SequenceOf (env : Env N) (m : Matcher) (recorded : List Recorded) (key : Bytes) (seq : List Recorded) : Prop :=
  seq = matched env m recorded key ∨ seq = hashed recorded key

/-- A call that has a sequence looked it up in the cassette as it was then. -/
def Task.Looked (env : Env N) (m : Matcher) (s : Replay) : Task → Prop
  | .found _ key first rest =>
    ∃ earlier, earlier <+: s.recorded ∧ SequenceOf env m earlier key (first :: rest)
  | _ => True

theorem Task.Looked.mono {s' : Replay} (h : t.Looked env m s) (hgrown : s.recorded <+: s'.recorded) :
    t.Looked env m s' := by
  cases t with
  | found r key first rest =>
    obtain ⟨earlier, hearlier, hseq⟩ := h
    exact ⟨earlier, hearlier.trans hgrown, hseq⟩
  | record | recorded | index | exact | legacy | served | missed | refused => trivial

theorem ofSequence_found {r' : ClientRequest} {key' : Bytes} {otherwise : Task} {seq : List Recorded}
    (hother : ∀ r key first rest, otherwise ≠ .found r key first rest)
    (h : Task.ofSequence r key otherwise seq = .found r' key' first rest) : key = key' ∧ seq = first :: rest := by
  cases seq with
  | nil => exact absurd h (hother _ _ _ _)
  | cons e seq =>
    cases h
    exact ⟨rfl, rfl⟩

theorem Task.next_found (hs : s.Regrouped env m)
    (h : (t.next env m s).2 = .found r key first rest) :
    SequenceOf env m s.recorded key (first :: rest) := by
  cases t with
  | record p q answer now =>
    simp only [Task.next] at h
    split at h <;> cases h
  | index r' =>
    obtain ⟨rfl, hseq⟩ := ofSequence_found (fun _ _ _ _ heq => by cases heq) h
    exact .inl (hseq.symm.trans (hs.extendMatchIndex.2.2.2 _))
  | exact r' =>
    obtain ⟨rfl, hseq⟩ := ofSequence_found (fun _ _ _ _ heq => by split at heq <;> cases heq) h
    exact .inr (hseq.symm.trans (hs.byHash _))
  | legacy r' =>
    obtain ⟨rfl, hseq⟩ := ofSequence_found (fun _ _ _ _ heq => by cases heq) h
    exact .inr (hseq.symm.trans (hs.byHash _))
  | found | recorded | served | missed | refused => cases h

theorem Task.next_regrouped (hs : s.Regrouped env m) (t : Task) :
    (t.next env m s).1.Regrouped env m ∧ s.recorded <+: (t.next env m s).1.recorded := by
  cases t with
  | record p q answer now =>
    simp only [Task.next]
    split
    · exact ⟨hs, prefix_rfl⟩
    next it _ => exact ⟨hs.append q it now, prefix_append _ _⟩
  | index r =>
    obtain ⟨hafter, hsame, -⟩ := hs.extendMatchIndex
    exact ⟨hafter, hsame.symm ▸ prefix_rfl⟩
  | found r key first rest =>
    exact ⟨hs.advance key first rest, (s.advance_fields key first rest).1.symm ▸ prefix_rfl⟩
  | exact | legacy | recorded | served | missed | refused => exact ⟨hs, prefix_rfl⟩

theorem start_looked (s : Replay) (call : Call) : (Task.start m call).Looked env m s := by
  cases call with
  | record => trivial
  | serve r =>
    simp only [Task.start]
    split
    · trivial
    · split <;> trivial

/-- The indices are right and every sequence was looked up. -/
def Looked (env : Env N) (m : Matcher) : Pool Replay Task → Prop :=
  System.Holds (Replay.Regrouped env m) fun _ s t => t.Looked env m s

theorem Looked.act (h : Looked env m w) (a : Act Call Unit) :
    Looked env m ((replay env m).act w a) := by
  refine Holds.act h (fun call _ => start_looked w.shared call) ?_ ?_
  · rintro i choice t rfl hi
    obtain ⟨hafter, hgrown⟩ := Task.next_regrouped h.1 t
    refine ⟨hafter, ?_⟩
    change ((t.next env m w.shared).2).Looked env m (t.next env m w.shared).1
    cases hnext : (t.next env m w.shared).2 with
    | found r key first rest => exact ⟨w.shared.recorded, hgrown, Task.next_found h.1 hnext⟩
    | record | recorded | index | exact | legacy | served | missed | refused => trivial
  · rintro i choice t j u rfl hi hj hne
    exact (h.2 j u hj).mono (Task.next_regrouped h.1 t).2

theorem recorded_act (h : Looked env m w) (a : Act Call Unit) :
    w.shared.recorded <+: ((replay env m).act w a).shared.recorded := by
  cases a with
  | start call => exact prefix_rfl
  | step i choice =>
    cases hi : w.calls[i]? with
    | none => rw [act_step_none hi]
    | some t =>
      rw [(act_step hi choice).1]
      exact (Task.next_regrouped h.1 t).2

theorem recorded_run (h : Looked env m w) (acts : List (Act Call Unit)) :
    w.shared.recorded <+: ((replay env m).run w acts).shared.recorded := by
  induction acts generalizing w with
  | nil => exact prefix_rfl
  | cons a acts ih => exact (recorded_act h a).trans (ih (h.act a))

theorem looked_resolved (h : Looked env m w) (hx : resolved w a = some x) :
    ∃ earlier, earlier <+: w.shared.recorded ∧ SequenceOf env m earlier x.key x.seq := by
  unfold resolved at hx
  split at hx
  · cases hx
  · split at hx
    next r key first rest hfound =>
      cases hx
      exact h.2 _ _ hfound
    next => cases hx

theorem looked_observed (h : Looked env m w) {acts : List (Act Call Unit)}
    (hx : x ∈ (replay env m).observed resolved w acts) :
    ∃ earlier, earlier <+: ((replay env m).run w acts).shared.recorded ∧
      SequenceOf env m earlier x.key x.seq := by
  induction acts generalizing w with
  | nil => cases hx
  | cons a acts ih =>
    rw [observed, mem_append, Option.mem_toList] at hx
    rcases hx with hnow | hlater
    · obtain ⟨earlier, hearlier, hseq⟩ := looked_resolved h hnow
      exact ⟨earlier, hearlier.trans (recorded_run h (a :: acts)), hseq⟩
    · exact ih (h.act a) hlater

/-! ## The number of the request -/

theorem pass_le (place available : Nat) : pass place available ≤ place + 1 := by
  unfold pass
  split <;> omega

theorem position_concat (place : Nat) (requests : List Resolved) (x : Resolved) :
    position place (requests ++ [x]) = pass (position place requests) x.seq.length := by
  simp [position]

theorem position_le (requests : List Resolved) : position 0 requests ≤ requests.length := by
  induction requests using reverseRecOn with
  | nil => exact le_refl 0
  | append_singleton requests x ih =>
    rw [position_concat, length_append]
    exact le_trans (pass_le _ _) (succ_le_succ ih)

/-- The cursor keeps up with the requests when none of them repeats below a bound. -/
theorem le_position {bound : Nat} {requests : List Resolved}
    (h : ∀ (j : Nat) y, requests[j]? = some y → min (j + 1) bound ≤ y.seq.length) :
    min requests.length bound ≤ position 0 requests := by
  induction requests using reverseRecOn with
  | nil => exact min_le_left _ _
  | append_singleton requests x ih =>
    have hbefore := ih fun j y hy =>
      h j y (by rw [getElem?_append_left (List.getElem?_eq_some_iff.mp hy).choose, hy])
    have hlast := h requests.length x (by rw [getElem?_concat_length])
    rw [position_concat, length_append, length_singleton, pass]
    split <;> omega

section Example

def answerOf (status : Int) : Answer := ⟨status, [], some (bytes "[]"), [], .finished⟩

/-- One recording is served and repeated, and two more are recorded before the next request. -/
def grownAfterRepeat : List (Act Call Unit) :=
  [.start (.record recorder bareRequest (some (answerOf 200)) 0), .step 0 (),
    .start (.serve bareRequest), .step 1 (), .step 1 (),
    .start (.serve bareRequest), .step 2 (), .step 2 (),
    .start (.record recorder bareRequest (some (answerOf 201)) 0), .step 3 (),
    .start (.record recorder bareRequest (some (answerOf 202)) 0), .step 4 (),
    .start (.serve bareRequest), .step 5 (), .step 5 ()]

def grownRequests : List Resolved :=
  resolvedTo sampleEnv ⟨[]⟩ ⟨Replay.new [], []⟩ grownAfterRepeat (sampleEnv.requestHash bareRequest)

end Example

end MockAgents.Recording
