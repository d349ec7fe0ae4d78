import MockAgents.State.Store
/-!
# Sessions under concurrent calls

`Get` deletes the session it found expired if the map still holds the same one, and does
not look at its expiry again.  A session that a turn refreshes in between is lost.  Where
no turn does, a session leaves the map only once it has expired, by `Delete`, or when the
map is at its bound, the least recently accessed first.
-/

namespace MockAgents.State

open Lib Lib.Maps List Option AList Shared System

/-! ## Expiry over time -/
variable {now now' : Int}

variable {p : Nat}

theorem expired_mono {heap : List Session}
    (h : expired heap now p = true) (hle : now ≤ now') : expired heap now' p = true := by
  rw [expired] at h ⊢
  cases hp : heap[p]? with
  | none => simp [hp] at h
  | some s =>
    simp only [hp, any_some, Session.isExpired, Bool.and_eq_true, decide_eq_true_eq] at h ⊢
    omega

/-! ## Eviction -/

section
variable {order : Shuffle} {heap : List Session} {now maxSessions : Int} {m : SessionMap}
variable {id id' : String} {p q : Nat} {m' : SessionMap}

theorem byLastAccess_perm (order : Shuffle) (heap : List Session) (m : SessionMap) :
    (byLastAccess order heap m).Perm m.entries :=
  (mergeSort_perm _ _).trans (order.perm _)

theorem byLastAccess_sorted (order : Shuffle) (heap : List Session) (m : SessionMap) :
    (byLastAccess order heap m).Pairwise fun a b =>
      lastAccess heap a.2 ≤ lastAccess heap b.2 := by
  refine (pairwise_mergeSort ?_ ?_ (order.list m.entries)).imp fun h => by simpa using h
  · simp only [decide_eq_true_eq]
    exact fun a b c => le_trans
  · intro a b
    simpa using le_total (lastAccess heap a.2) (lastAccess heap b.2)

/-- What the sort put before a kept entry was accessed no later. -/
theorem dropOldest_lru (hp : m.lookup id = some p)
    (hgone : (dropOldest order heap maxSessions m).lookup id = none)
    (hq : (dropOldest order heap maxSessions m).lookup id' = some q) :
    lastAccess heap p ≤ lastAccess heap q := by
  rw [dropOldest, lookup_keepIf] at hgone hq
  rw [hp] at hgone
  obtain ⟨hq, hkept⟩ := filter_eq_some_iff.mp hq
  have hid : id ∈ ((byLastAccess order heap m).take (dropCount maxSessions m)).map (·.1) := by
    simpa using hgone
  have hid' : id' ∉ ((byLastAccess order heap m).take (dropCount maxSessions m)).map (·.1) := by
    simpa using hkept
  -- the dropped entry of `id` is the one `p` stands in
  obtain ⟨e, he, rfl⟩ := mem_map.mp hid
  have hentry : e ∈ m.entries := (byLastAccess_perm order heap m).mem_iff.mp (mem_of_mem_take he)
  obtain rfl : e.2 = p := some.inj ((mem_lookup_iff.mpr hentry).symm.trans hp)
  have hother : (⟨id', q⟩ : Sigma fun _ : String => Nat) ∈
      (byLastAccess order heap m).drop (dropCount maxSessions m) := by
    have hmem := (byLastAccess_perm order heap m).mem_iff.mpr (mem_lookup_iff.mp hq)
    rw [← take_append_drop (dropCount maxSessions m) (byLastAccess order heap m)] at hmem
    rcases mem_append.mp hmem with htake | hdrop
    · exact absurd (mem_map_of_mem htake) hid'
    · exact hdrop
  have hsorted := byLastAccess_sorted order heap m
  rw [← take_append_drop (dropCount maxSessions m) (byLastAccess order heap m),
    pairwise_append] at hsorted
  exact hsorted.2.2 e he ⟨id', q⟩ hother

theorem length_dropOldest (hm : m.entries ≠ []) :
    (dropOldest order heap maxSessions m).entries.length < m.entries.length := by
  have hsorted : byLastAccess order heap m ≠ [] := fun hnil =>
    hm ((hnil ▸ byLastAccess_perm order heap m).nil_eq.symm)
  obtain ⟨e, rest, hcons⟩ := exists_cons_of_ne_nil hsorted
  have hcount : dropCount maxSessions m ≠ 0 := by
    have := length_pos_iff.mpr hm
    rw [dropCount]
    omega
  have hfirst : e ∈ (byLastAccess order heap m).take (dropCount maxSessions m) := by
    obtain ⟨n, hn⟩ := Nat.exists_eq_succ_of_ne_zero hcount
    rw [hcons, hn]
    exact mem_cons_self ..
  have hentry : e ∈ m.entries :=
    (byLastAccess_perm order heap m).mem_iff.mp (mem_of_mem_take hfirst)
  refine length_filter_lt_length_iff_exists.mpr ⟨e, hentry, ?_⟩
  simp only [decide_eq_true_eq, not_not]
  exact mem_map_of_mem hfirst

/-- What an eviction takes out of the map. -/
inductive Evicted (heap : List Session) (now : Int) (m m' : SessionMap) (maxSessions : Int) :
    Prop where
  | room (same : m' = m) (fits : maxSessions ≤ 0 ∨ (m.entries.length : Int) < maxSessions)
  | swept (same : m' = unexpired heap now m) (full : maxSessions ≤ m.entries.length)
      (fits : (m'.entries.length : Int) < maxSessions)
  | dropped (order : Shuffle) (same : m' = dropOldest order heap maxSessions (unexpired heap now m))
      (full : maxSessions ≤ (unexpired heap now m).entries.length) (pos : 0 < maxSessions)

theorem evict_spec : Evicted heap now m (evictForSpaceLocked order heap now maxSessions m)
    maxSessions := by
  rw [evictForSpaceLocked]
  split
  next hroom => exact .room rfl hroom
  next hfull =>
    split
    next hfits => exact .swept rfl (by omega) hfits
    next hstill => exact .dropped order rfl (by omega) (by omega)

theorem length_unexpired : (unexpired heap now m).entries.length ≤ m.entries.length :=
  length_filter_le ..

theorem Evicted.length (h : Evicted heap now m m' maxSessions)
    (hpos : 0 < maxSessions) (hbound : (m.entries.length : Int) ≤ maxSessions) :
    (m'.entries.length : Int) < maxSessions := by
  cases h with
  | room same fits =>
    subst same
    omega
  | swept same full fits => exact fits
  | dropped order same full pos =>
    have hlen : (unexpired heap now m).entries.length ≤ m.entries.length := length_unexpired
    have hlt : (dropOldest order heap maxSessions (unexpired heap now m)).entries.length <
        (unexpired heap now m).entries.length :=
      length_dropOldest (ne_nil_of_length_pos (by omega))
    rw [same]
    omega

/-- An eviction takes an unexpired session only when the map is at its bound. -/
theorem Evicted.full (h : Evicted heap now m m' maxSessions)
    (hp : m.lookup id = some p) (hgone : m'.lookup id ≠ some p) :
    maxSessions ≤ m.entries.length := by
  cases h with
  | room same fits => exact absurd (same ▸ hp) hgone
  | swept same full fits => exact full
  | dropped order same full pos =>
    have hlen : (unexpired heap now m).entries.length ≤ m.entries.length := length_unexpired
    omega

theorem Evicted.lru (h : Evicted heap now m m' maxSessions)
    (hp : m.lookup id = some p) (hgone : m'.lookup id = none) (hq : m'.lookup id' = some q) :
    expired heap now p = true ∨ lastAccess heap p ≤ lastAccess heap q := by
  by_cases hexp : expired heap now p = true
  · exact .inl hexp
  have hlive : (unexpired heap now m).lookup id = some p := by
    rw [unexpired, lookup_keepIf, hp]
    simp [hexp]
  cases h with
  | room same fits => rw [same, hp] at hgone; cases hgone
  | swept same full fits => rw [same, hlive] at hgone; cases hgone
  | dropped order same full pos =>
    rw [same] at hgone hq
    exact .inr (dropOldest_lru hlive hgone hq)

end

/-! ## What a step does to the map -/

section
variable {s : Shared} {ch : Choice} {id : String} {p : Nat}
variable {now : Int}

theorem lookup_vacated_ne {id' : String} (h : id ≠ id') :
    (s.vacated now id').lookup id = s.store.sessions.lookup id := by
  rw [vacated]
  split
  · split
    · exact lookup_erase_ne h
    · rfl
  · rfl

theorem evicted_spec (s : Shared) (ch : Choice) (id : String) :
    Evicted s.heap ch.now (s.vacated ch.now id) (s.evicted ch id) s.store.maxSessions :=
  evict_spec

theorem cleanup_keeps (found : List Nat) {m : SessionMap} (h : m.lookup id = some p)
    (hlive : expired s.heap now p = false) :
    (found.foldl (s.cleanupOne now) m).lookup id = some p := by
  refine foldlRecOn (motive := fun m : SessionMap => m.lookup id = some p) found _ h fun m h q _ => ?_
  rw [cleanupOne]
  split
  · exact h
  next session hq =>
    split
    next hgone =>
      rw [lookup_erase_ne, h]
      -- the deleted entry is expired, so it is not the one of `id`
      rintro rfl
      obtain rfl : p = q := some.inj (h.symm.trans hgone.1)
      rw [expired, hq, any_some, hgone.2] at hlive
      cases hlive
    · exact h

theorem length_cleanup (found : List Nat) (m : SessionMap) :
    (found.foldl (s.cleanupOne now) m).entries.length ≤ m.entries.length := by
  refine foldlRecOn (motive := fun m' : SessionMap => m'.entries.length ≤ m.entries.length) found _ le_rfl
    fun m' hm q _ => le_trans ?_ hm
  rw [cleanupOne]
  split
  · exact le_rfl
  · split
    · exact (kerase_sublist _ _).length_le
    · exact le_rfl

/-! ## What a step can do -/

def Task.refreshes : Task → Option Nat
  | .turn p _ _ _ => some p
  | _ => none

def Task.removes : Task → Option Nat
  | .get _ (.remove p) => some p
  | _ => none

inductive Move (ch : Choice) (s : Shared) : Task → Shared → Task → Prop where
  /-- a lookup, a check, or a call that has returned -/
  | looked (t t' : Task) (innocent : t'.removes = none) : Move ch s t s t'
  | doomed (id : String) (p : Nat) (found : expired s.heap ch.now p = true) :
      Move ch s (.get id (.check p)) s (.get id (.remove p))
  | removed (id : String) (p : Nat) :
      Move ch s (.get id (.remove p)) (s.deleteIfSame id p) (.get id (.done none))
  | created (id agentName : String) (absent : s.live ch.now id = none) :
      Move ch s (.getOrCreate id agentName .create) (s.create ch id agentName)
        (.getOrCreate id agentName (.done s.heap.length))
  | deleted (id : String) :
      Move ch s (.delete id) (s.setSessions (s.store.sessions.erase id)) .returned
  | cleaned (found : List Nat) :
      Move ch s (.cleanup (.remove found))
        (s.setSessions (found.foldl (s.cleanupOne ch.now) s.store.sessions)) (.cleanup .done)
  | turned (p : Nat) (userContent : String) (reply : Reply) (vars : Nat) :
      Move ch s (.turn p userContent reply vars) (s.turnStep ch p userContent reply vars) .returned

theorem Task.step_spec (ch : Choice) (s : Shared) (t : Task) :
    Move ch s t (t.step ch s).1 (t.step ch s).2 := by
  cases t with
  | get id pc =>
    cases pc with
    | lookup =>
      simp only [Task.step, getStep]
      split <;> exact .looked _ _ rfl
    | check p =>
      simp only [Task.step, getStep]
      split
      next hexp => exact .doomed id p hexp
      · exact .looked _ _ rfl
    | remove p => exact .removed id p
    | done r => exact .looked _ _ rfl
  | getOrCreate id agentName pc =>
    cases pc with
    | lookup | check =>
      simp only [Task.step, getOrCreateStep]
      split <;> exact .looked _ _ rfl
    | create =>
      simp only [Task.step, getOrCreateStep]
      split
      · exact .looked _ _ rfl
      next habsent => exact .created id agentName habsent
    | done p => exact .looked _ _ rfl
  | delete id => exact .deleted id
  | cleanup pc =>
    simp only [Task.step]
    rw [cleanupStep.eq_def]
    split
    case h_5 found => exact .cleaned found
    all_goals exact .looked _ _ rfl
  | turn p userContent reply vars => exact .turned p userContent reply vars
  | returned => exact .looked _ _ rfl

variable {s' : Shared} {t t' : Task}

/-- A step that takes an unexpired session out of the map is a `Delete`, an eviction, or a
`Get` that had found it expired. -/
theorem Move.gone (h : Move ch s t s' t') (hold : s.store.sessions.lookup id = some p)
    (hnew : s'.store.sessions.lookup id ≠ some p) (hlive : expired s.heap ch.now p = false) :
    t = .delete id ∨
      (∃ id' agentName, t = .getOrCreate id' agentName .create ∧ id ≠ id' ∧
        s.store.maxSessions ≤ (s.vacated ch.now id').entries.length ∧
        (s.evicted ch id').lookup id ≠ some p) ∨
      t = .get id (.remove p) := by
  cases h with
  | removed id' q =>
    rw [deleteIfSame] at hnew
    split at hnew
    next hsame =>
      by_cases hid : id = id'
      · subst hid
        obtain rfl : p = q := some.inj (hold.symm.trans hsame)
        exact .inr (.inr rfl)
      · exact absurd ((lookup_erase_ne hid).trans hold) hnew
    · exact absurd hold hnew
  | created id' agentName absent =>
    have hid : id ≠ id' := by
      rintro rfl
      rw [live, hold] at absent
      simp [hlive] at absent
    have hevicted : (s.evicted ch id').lookup id ≠ some p := fun hkept =>
      hnew ((lookup_insert_ne hid).trans hkept)
    exact .inr (.inl ⟨id', agentName, rfl, hid,
      (evicted_spec s ch id').full ((lookup_vacated_ne hid).trans hold) hevicted, hevicted⟩)
  | deleted id' =>
    by_cases hid : id = id'
    · exact .inl (by rw [hid])
    · exact absurd ((lookup_erase_ne hid).trans hold) hnew
  | cleaned found => exact absurd (cleanup_keeps found hold hlive) hnew
  | looked | doomed | turned => exact absurd hold hnew

theorem lt_of_expired {heap : List Session} (h : expired heap now p = true) : p < heap.length := by
  by_contra hge
  simp [expired, getElem?_eq_none (Nat.le_of_not_lt hge)] at h

/-- A step leaves the expiry of the sessions it does not refresh. -/
theorem Move.expired_eq (h : Move ch s t s' t') (hp : p < s.heap.length)
    (hr : t.refreshes ≠ some p) : expired s'.heap now p = expired s.heap now p := by
  cases h with
  | removed id q =>
    rw [deleteIfSame]
    split <;> rfl
  | created id agentName absent =>
    simp only [expired, create, getElem?_append_left hp]
  | turned q userContent reply vars =>
    have hne : q ≠ p := fun heq => hr (congrArg some heq)
    simp [turnStep, expired, hne]
  | looked | doomed | deleted | cleaned => rfl

theorem Move.maxSessions (h : Move ch s t s' t') : s'.store.maxSessions = s.store.maxSessions := by
  cases h with
  | removed id q =>
    rw [deleteIfSame]
    split <;> rfl
  | looked | doomed | created | deleted | cleaned | turned => rfl

theorem Move.length (h : Move ch s t s' t') (hpos : 0 < s.store.maxSessions)
    (hbound : (s.store.sessions.entries.length : Int) ≤ s.store.maxSessions) :
    (s'.store.sessions.entries.length : Int) ≤ s.store.maxSessions := by
  have herase : ∀ id, (s.store.sessions.erase id).entries.length ≤ s.store.sessions.entries.length :=
    fun id => (kerase_sublist _ _).length_le
  cases h with
  | removed id q =>
    rw [deleteIfSame]
    split
    · exact le_trans (Int.ofNat_le.mpr (herase id)) hbound
    · exact hbound
  | created id agentName absent =>
    have hvacated : (s.vacated ch.now id).entries.length ≤ s.store.sessions.entries.length := by
      rw [vacated]
      split
      · split
        · exact (kerase_sublist _ _).length_le
        · exact le_rfl
      · exact le_rfl
    have hroom := (evicted_spec s ch id).length hpos (by omega)
    have hinsert : ((s.evicted ch id).insert id s.heap.length).entries.length ≤
        (s.evicted ch id).entries.length + 1 :=
      Nat.succ_le_succ (kerase_sublist _ _).length_le
    change ((((s.evicted ch id).insert id s.heap.length).entries.length : Nat) : Int) ≤ _
    omega
  | deleted id => exact le_trans (Int.ofNat_le.mpr (herase id)) hbound
  | cleaned found => exact le_trans (Int.ofNat_le.mpr (length_cleanup found _)) hbound
  | looked | doomed | turned => exact hbound

theorem Move.removes (h : Move ch s t s' t') (hp : t'.removes = some p) :
    expired s.heap ch.now p = true ∧ s' = s := by
  cases h with
  | looked _ _ innocent => rw [innocent] at hp; cases hp
  | doomed id q found =>
    cases hp
    exact ⟨found, rfl⟩
  | removed | created | deleted | cleaned | turned => cases hp

end

/-! ## Runs -/
variable {w : Pool Shared Task} {a : Act Call Choice}

theorem act_of_moves {P : Pool Shared Task → Prop}
    (hw : P w) (hstart : ∀ call, a = .start call → P (sessionStore.act w (.start call)))
    (hmove : ∀ i ch t s' t', a = .step i ch → w.calls[i]? = some t → w.shared.now ≤ ch.now →
      t' = (t.step ch w.shared).2 → Move ch w.shared t s' t' →
      P ⟨{ s' with now := ch.now }, w.calls.set i t'⟩) : P (sessionStore.act w a) := by
  refine act_of_step hw hstart fun i ch t ha hi => ?_
  simp only [sessionStore, Task.next]
  split
  next hclock => exact hmove i ch t _ _ ha hi hclock rfl (t.step_spec ch w.shared)
  · obtain ⟨hlt, rfl⟩ := List.getElem?_eq_some_iff.mp hi
    rw [set_getElem_self]
    exact hw

/-- A turn refreshes a session only while no `Get` that found it expired is about to delete
it. -/
def Undisturbed (w : Pool Shared Task) : Act Call Choice → Prop
  | .start _ => True
  | .step i _ =>
    (w.calls[i]?.bind Task.refreshes).all (fun p => decide (p ∉ w.gather Task.removes)) = true

instance (w : Pool Shared Task) (a : Act Call Choice) : Decidable (Undisturbed w a) := by
  cases a with
  | start => exact inferInstanceAs (Decidable True)
  | step i _ => exact inferInstanceAs (Decidable (_ = true))

structure Valid (maxSessions : Int) (w : Pool Shared Task) : Prop where
  cap : w.shared.store.maxSessions = maxSessions
  bound : (w.shared.store.sessions.entries.length : Int) ≤ maxSessions
  /-- what a `Get` is about to delete is still expired -/
  doomed : ∀ p ∈ w.gather Task.removes, expired w.shared.heap w.shared.now p = true
variable {maxSessions : Int}

theorem valid_act (hpos : 0 < maxSessions) (w : Pool Shared Task)
    (a : Act Call Choice) (hw : Valid maxSessions w) (ha : Undisturbed w a) :
    Valid maxSessions (sessionStore.act w a) := by
  refine act_of_moves hw (fun call _ => ?_) fun i ch t s' t' hact hi hclock _ hmove => ?_
  · have hgather : (sessionStore.act w (.start call)).gather Task.removes =
        w.gather Task.removes := by
      rw [Pool.gather_start]
      cases call <;> simp [sessionStore, Task.start, Task.removes]
    exact ⟨hw.cap, hw.bound, hgather ▸ hw.doomed⟩
  · refine ⟨hmove.maxSessions.trans hw.cap, ?_, fun p hp => ?_⟩
    · have := hmove.length (hw.cap ▸ hpos) (hw.cap ▸ hw.bound)
      rwa [hw.cap] at this
    · rcases Pool.mem_gather_set hi hp with hold | hown
      · have hexp := hw.doomed p hold
        have hother : t.refreshes ≠ some p := by
          intro hr
          subst hact
          simp [Undisturbed, hi, hr, hold] at ha
        rw [hmove.expired_eq (lt_of_expired hexp) hother]
        exact expired_mono hexp hclock
      · obtain ⟨hexp, rfl⟩ := hmove.removes hown
        exact hexp
variable {acts : List (Act Call Choice)}

/-! ## One session for one id -/

def GetOrCreatePc.found : GetOrCreatePc → Option Nat
  | .check p | .done p => some p
  | _ => none

/-- A step that neither deletes, nor finds expired, nor evicts the session under an id. -/
def Kept (id : String) (p : Nat) (w : Pool Shared Task) : Act Call Choice → Prop
  | .start _ => True
  | .step i ch => w.shared.now ≤ ch.now →
      expired w.shared.heap ch.now p = false ∧ w.calls[i]? ≠ some (.delete id) ∧
        ∀ id' agentName, id ≠ id' → w.calls[i]? = some (.getOrCreate id' agentName .create) →
          (w.shared.evicted ch id').lookup id = some p
variable {id : String}

theorem getOrCreateStep_found {s : Shared} {ch : Choice} {agentName : String}
    {pc : GetOrCreatePc} (hstored : s.store.sessions.lookup id = some p)
    (hlive : expired s.heap ch.now p = false) (h : pc.found = none ∨ pc.found = some p) :
    (s.getOrCreateStep ch id agentName pc).2.found = none ∨
      (s.getOrCreateStep ch id agentName pc).2.found = some p := by
  cases pc with
  | lookup =>
    rw [getOrCreateStep, hstored]
    exact .inr rfl
  | check q =>
    obtain rfl : q = p := h.elim (fun hnone => by cases hnone) some.inj
    rw [getOrCreateStep, hlive]
    exact .inr rfl
  | create =>
    have hlookup : s.live ch.now id = some p := by simp [live, hstored, hlive]
    rw [getOrCreateStep, hlookup]
    exact .inr rfl
  | done q => exact h

/-- The map holds `p` under the id, and the calls for the id among `ks` have it in hand or
none yet. -/
structure Agree (id : String) (p : Nat) (ks : List Nat) (w : Pool Shared Task) : Prop where
  stored : w.shared.store.sessions.lookup id = some p
  calls : ∀ k ∈ ks, ∀ agentName pc, w.calls[k]? = some (.getOrCreate id agentName pc) →
    pc.found = none ∨ pc.found = some p
variable {ks : List Nat}

theorem Valid.spares (h : Valid maxSessions w) {i : Nat} (hi : w.calls[i]? = some (.get id (.remove p)))
    (hclock : w.shared.now ≤ now) : expired w.shared.heap now p = true :=
  expired_mono (h.doomed p (Pool.mem_gather Task.removes hi rfl)) hclock

theorem agree_act (hvalid : Valid maxSessions w) (hw : Agree id p ks w)
    (hkept : Kept id p w a) : Agree id p ks (sessionStore.act w a) := by
  refine act_of_moves hw (fun call _ => ⟨hw.stored, fun k hk agentName pc hcall => ?_⟩)
    fun i ch t s' t' hact hi hclock ht' hmove => ?_
  · rcases call_act_cases hcall with ⟨hold, -⟩ | ⟨_, _, hact, -⟩ | ⟨call', -, -, hstart⟩
    · exact hw.calls k hk agentName pc hold
    · cases hact
    · cases call' <;> cases hstart
      exact .inl rfl
  · subst hact
    obtain ⟨hlive, hdelete, hevict⟩ := hkept hclock
    refine ⟨?_, fun k hk agentName pc hcall => ?_⟩
    · by_contra hgone
      rcases hmove.gone hw.stored hgone hlive with rfl | ⟨id', agentName, rfl, hid, -, hevicted⟩ | rfl
      · exact hdelete hi
      · exact hevicted (hevict id' agentName hid hi)
      · exact absurd (hlive.symm.trans (hvalid.spares hi hclock)) (by decide)
    · rw [getElem?_set] at hcall
      split at hcall
      next heq =>
        subst heq
        split at hcall
        · -- the call that moved: it was a call for the id, and found what the map holds
          obtain rfl := some.inj hcall
          cases t with
          | getOrCreate id' agentName' pc' =>
            obtain ⟨rfl, -, rfl⟩ : id = id' ∧ agentName = agentName' ∧
                pc = (w.shared.getOrCreateStep ch id' agentName' pc').2 := by
              simpa [Task.step] using ht'
            exact getOrCreateStep_found hw.stored hlive (hw.calls i hk _ _ hi)
          | get | delete | cleanup | turn | returned => simp [Task.step] at ht'
        · cases hcall
      next hne => exact hw.calls k hk agentName pc hcall

theorem agree_run (hpos : 0 < maxSessions) (hvalid : Valid maxSessions w) (hw : Agree id p ks w)
    (h : sessionStore.Steps (fun w a => Undisturbed w a ∧ Kept id p w a) w acts) :
    Agree id p ks (sessionStore.run w acts) :=
  (Steps.run_induction (P := fun w => Valid maxSessions w ∧ Agree id p ks w)
    (fun w a hw ha => ⟨valid_act hpos w a hw.1 ha.1, agree_act hw.1 hw.2 ha.2⟩) h
    ⟨hvalid, hw⟩).2

/-! ## The store -/

/-- The session store under concurrent calls, in every run where a turn refreshes a session
only while no `Get` that found it expired is about to delete it.

* A step that takes an unexpired session out of the map is a `Delete` of its id, or a
  `GetOrCreate` of another id that found the map at its bound.
* An eviction takes expired sessions, and sessions accessed no later than every one kept.
* The map stays within its bound.
* Of two `GetOrCreate` calls for one id, the second to find its session returns the session
  of the first, unless it is deleted, expired or evicted in between. -/
theorem store_consistent (ttl maxSessions maxHistory now : Int) (hpos : 0 < maxSessions)
    (acts : List (Act Call Choice))
    (h : sessionStore.Steps Undisturbed (opened ttl maxSessions maxHistory now) acts) :
    let w := sessionStore.run (opened ttl maxSessions maxHistory now) acts
    (∀ (i : Nat) ch t id p, w.calls[i]? = some t → w.shared.now ≤ ch.now →
      w.shared.store.sessions.lookup id = some p →
      (sessionStore.act w (.step i ch)).shared.store.sessions.lookup id ≠ some p →
      expired w.shared.heap ch.now p = false →
      t = .delete id ∨ ∃ id' agentName, t = .getOrCreate id' agentName .create ∧ id ≠ id' ∧
        maxSessions ≤ (w.shared.vacated ch.now id').entries.length) ∧
    (∀ ch id id' id'' p q, (w.shared.vacated ch.now id).lookup id' = some p →
      (w.shared.evicted ch id).lookup id' = none → (w.shared.evicted ch id).lookup id'' = some q →
      expired w.shared.heap ch.now p = true ∨
        lastAccess w.shared.heap p ≤ lastAccess w.shared.heap q) ∧
    (w.shared.store.sessions.entries.length : Int) ≤ maxSessions ∧
    ∀ (id : String) (p i j : Nat) agentName agentName' (pc : GetOrCreatePc) r q more,
      w.shared.store.sessions.lookup id = some p →
      w.calls[i]? = some (.getOrCreate id agentName pc) → pc.found = some p →
      (∀ agentName pc, w.calls[j]? = some (.getOrCreate id agentName pc) → pc.found = none) →
      sessionStore.Steps (fun w a => Undisturbed w a ∧ Kept id p w a) w more →
      (sessionStore.run w more).calls[i]? = some (.getOrCreate id agentName (.done r)) →
      (sessionStore.run w more).calls[j]? = some (.getOrCreate id agentName' (.done q)) →
      r = q := by
  intro w
  have hvalid : Valid maxSessions w := Steps.run_induction (valid_act hpos) h
    ⟨rfl, Int.le_of_lt hpos, by simp [Pool.gather, opened]⟩
  refine ⟨fun i ch t id p hi hclock hold hnew hlive => ?_,
    fun ch id id' id'' p q hp hgone hq => (evicted_spec w.shared ch id).lru hp hgone hq,
    hvalid.bound, fun id p i j agentName agentName' pc r q more hstored hi hfound hj hmore hr hq => ?_⟩
  · have hmove := t.step_spec ch w.shared
    have hnew' : (t.step ch w.shared).1.store.sessions.lookup id ≠ some p := by
      rw [(act_step hi ch).1] at hnew
      simpa [sessionStore, Task.next, hclock] using hnew
    rcases hmove.gone hold hnew' hlive with hdelete | ⟨id', agentName, ht, hid, hfull, -⟩ | rfl
    · exact .inl hdelete
    · exact .inr ⟨id', agentName, ht, hid, hvalid.cap ▸ hfull⟩
    · exact absurd (hlive.symm.trans (hvalid.spares hi hclock)) (by decide)
  · have hagree : Agree id p [i, j] w := by
      refine ⟨hstored, fun k hk agentName'' pc'' hcall => ?_⟩
      rcases mem_pair.mp hk with rfl | rfl
      · obtain ⟨-, rfl⟩ : agentName = agentName'' ∧ pc = pc'' := by
          simpa using hi.symm.trans hcall
        exact .inr hfound
      · exact .inl (hj agentName'' pc'' hcall)
    have hrun := agree_run hpos hvalid hagree hmore
    have hresult : ∀ k ∈ [i, j], ∀ agentName r,
        (sessionStore.run w more).calls[k]? = some (.getOrCreate id agentName (.done r)) →
        r = p := fun k hk agentName r hk' =>
      (hrun.calls k hk agentName (.done r) hk').elim (fun hnone => by cases hnone) some.inj
    rw [hresult i (by simp) agentName r hr, hresult j (by simp) agentName' q hq]

/-! ## A refresh too late -/

def atTime (now : Int) : Choice := ⟨now, Shuffle.stored⟩

/-- A session that expires at time 11, and a `Get` that finds it expired at time 20. -/
def foundExpired : List (Act Call Choice) :=
  [.start (.getOrCreate "s" "a"), .step 0 (atTime 0), .step 0 (atTime 0),
    .start (.get "s"), .step 1 (atTime 20), .step 1 (atTime 20)]

theorem store_consistent_expired :
    sessionStore.Steps Undisturbed (opened 10 2 4 0) (foundExpired ++ [.step 1 (atTime 20)]) ∧
      ((sessionStore.run (opened 10 2 4 0)
        (foundExpired ++ [.step 1 (atTime 20)])).shared.store.sessions.entries.length : Int) ≤ 2 := by
  have hsteps : sessionStore.Steps Undisturbed (opened 10 2 4 0)
      (foundExpired ++ [.step 1 (atTime 20)]) := by decide +kernel
  exact ⟨hsteps, (store_consistent 10 2 4 0 (by decide) _ hsteps).2.2.1⟩

/-- A turn refreshes the session between the check and the deletion.  `Get` removes it
unexpired, and the next `GetOrCreate` returns another one. -/
theorem refreshed_session_removed :
    let w := sessionStore.run (opened 10 2 4 0)
      (foundExpired ++ [.start (.turn 0 "hello" ⟨"hi", []⟩ 0), .step 2 (atTime 20)])
    let w' := sessionStore.act w (.step 1 (atTime 20))
    w.calls[0]? = some (.getOrCreate "s" "a" (.done 0)) ∧
      w.shared.store.sessions.lookup "s" = some 0 ∧ expired w.shared.heap 20 0 = false ∧
      w.calls[1]? = some (.get "s" (.remove 0)) ∧ w'.shared.store.sessions.lookup "s" = none ∧
      (sessionStore.run w' [.start (.getOrCreate "s" "a"), .step 3 (atTime 20),
        .step 3 (atTime 20)]).calls[3]? = some (.getOrCreate "s" "a" (.done 1)) := by
  decide +kernel

end MockAgents.State
