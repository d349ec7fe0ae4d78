import MockAgents.Tenancy.Proofs.Steps
/-!
# Revocation

A principal may stand in the cache, or in a slow `Resolve`, long after its key was
rotated.  What it still says is bound to a version: while the row has that version it
has the secret the principal was read for.  A cached principal is accepted only at the
version of the row, so every accepted one is right at a moment of the call.
-/

namespace MockAgents.Tenancy

open Lib Lib.Maps List AList Database System

variable {H D : Type} {c : Crypto H D}

/-! ## Rows over time -/

/-- Where a row comes from after a step of `t`. -/
inductive RowNext (c : Crypto H D) (t : Task H) (s s' : Shared H D) (id : String)
    (row' : KeyRow H) : Prop where
  | kept (row : KeyRow H) (old : s.store.db.keys.lookup id = some row)
      (tenantID : row'.tenantID = row.tenantID) (hash : row'.hash = row.hash)
      (version : row'.version = row.version)
  | rotated (row : KeyRow H) (p : Bytes) (old : s.store.db.keys.lookup id = some row)
      (tenantID : row'.tenantID = row.tenantID) (version : row.version < row'.version)
      (keyed : row'.Keyed c p) (fresh : p ∉ s.drawn) (drawn : p ∈ s'.drawn)
  | inserted (p : Bytes) (old : s.store.db.keys.lookup id = none) (fresh : id ∉ s.issued)
      (issued : id ∈ s'.issued) (keyed : row'.Keyed c p) (drawn : p ∈ s'.drawn)
      (origin : p ∉ s.drawn ∨ t.inserting = some p)
      (into : t.insertsInto = some row'.tenantID)

/-- A principal read for a plaintext, as far as the row of its key still bears it out. -/
structure Vouches (c : Crypto H D) (s : Shared H D) (p : Bytes) (P : Principal) : Prop where
  issued : P.keyID ∈ s.issued
  row : ∀ row, s.store.db.keys.lookup P.keyID = some row →
    row.tenantID = P.tenantID ∧ P.credentialVersion ≤ row.version ∧
      (row.version = P.credentialVersion → c.compare row.hash p = true)

def ResolvePc.carries : ResolvePc → Option Principal
  | .check P | .bump P _ | .set P => some P
  | _ => none

def ResolvePc.accepts : ResolvePc → Option Principal
  | .bump P _ | .set P | .done (.ok P) => some P
  | _ => none

structure Sound [DecidableEq D] (c : Crypto H D) (s : Shared H D) : Prop where
  issued : ∀ id row, s.store.db.keys.lookup id = some row → id ∈ s.issued
  tenants : ∀ id row, s.store.db.keys.lookup id = some row → row.tenantID ∈ s.store.db.tenants
  secrets : ∀ id row, s.store.db.keys.lookup id = some row →
    ∀ p, c.compare row.hash p = true → p ∈ s.drawn
  entries : ∀ p e, s.store.cache.entries.lookup (c.hashKey p) = some e →
    Vouches c s p e.principal

def Holding (c : Crypto H D) (_ : Nat) (s : Shared H D) (t : Task H) : Prop :=
  ∀ p pc P, t = .resolve p pc → pc.carries = some P → Vouches c s p P

/-- The shared state only learns. -/
structure Grows (s s' : Shared H D) : Prop where
  now : s.now ≤ s'.now
  issued : s.issued ⊆ s'.issued
  drawn : s.drawn ⊆ s'.drawn

variable {p : Bytes} {row : KeyRow H} {k T tenantID id : String} {actor : Option Principal}
variable {t : Task H} {ch : Choice} {s s' : SQLiteStore H D} {pc pc' : WritePc Unit}

theorem Task.preset_of_inserting (h : t.inserting = some p) : p ∈ t.preset := by
  cases t with
  | createPreset tenantID name role q pc =>
    cases pc with
    | insert =>
      cases h
      exact mem_singleton_self p
    | tenant | done => cases h
  | resolve | rotate | bulkRotate | deleteKey | deleteTenant | updateRole | create => cases h

section
variable [DecidableEq D]

theorem Task.next_grows (t : Task H) (ch : Choice) (s : Shared H D) :
    Grows s (t.next c ch s).1 := by
  rw [Task.next]
  split
  next hpossible => exact ⟨hpossible.1, by simp, by simp⟩
  · exact ⟨le_rfl, fun _ h => h, fun _ h => h⟩

theorem Task.next_row {t : Task H} {ch : Choice} {s : Shared H D} {row' : KeyRow H}
    (h : (t.next c ch s).1.store.db.keys.lookup id = some row') :
    RowNext c t s (t.next c ch s).1 id row' := by
  rw [Task.next] at h ⊢
  split at h
  next hpossible =>
    simp only [hpossible, ↓reduceIte]
    obtain ⟨-, hid, -, hdraws⟩ := hpossible
    rcases t.step_db c ch s.store with hev | ⟨id', row, hins, hinto⟩
    · obtain ⟨row, hrow, hre⟩ := hev.keys id row' h
      rcases hre.secret with ⟨hhash, hver, -⟩ | ⟨hver, p, hp, hk⟩
      · exact .kept row hrow hre.tenantID hhash hver
      · obtain ⟨d, hd, rfl⟩ := mem_map.mp hp
        exact .rotated row d.plaintext hrow hre.tenantID hver hk (hdraws d hd)
          (by simp [mem_map_of_mem hd])
    · rw [hins.eq] at h
      by_cases heq : id = id'
      · subst heq
        rw [lookup_setKey_self] at h
        cases h
        obtain ⟨p, hp, hk⟩ := hins.secret
        have hissued : id ∈ ch.keyID.toList ++ s.issued := by simp [hins.drawn]
        rcases mem_append.mp hp with hp | hp
        · obtain ⟨d, hd, rfl⟩ := mem_map.mp hp
          exact .inserted d.plaintext hins.absent (hid id hins.drawn) hissued hk
            (by simp [mem_map_of_mem hd]) (.inl (hdraws d hd)) hinto
        · have hinserting := Option.mem_toList.mp hp
          exact .inserted p hins.absent (hid id hins.drawn) hissued hk
            (by simp [Task.preset_of_inserting hinserting]) (.inr hinserting) hinto
      · rw [lookup_setKey_ne row heq] at h
        exact .kept row' h rfl rfl rfl
  next hpossible =>
    exact .kept row' h rfl rfl rfl

end

/-! ## The invariant -/

theorem Vouches.next {s s' : Shared H D} {P : Principal} (h : Vouches c s p P) (hgrows : Grows s s')
    (hrow : ∀ row', s'.store.db.keys.lookup P.keyID = some row' → RowNext c t s s' P.keyID row') :
    Vouches c s' p P := by
  refine ⟨hgrows.issued h.issued, fun row' hrow' => ?_⟩
  cases hrow row' hrow' with
  | kept row old tenantID hash version =>
    rw [tenantID, hash, version]
    exact h.row row old
  | rotated row q old tenantID version =>
    -- the version has passed the one the principal was read at
    obtain ⟨hten, hle, -⟩ := h.row row old
    exact ⟨tenantID.trans hten, by omega, fun heq => by omega⟩
  | inserted q old fresh => exact absurd h.issued fresh

section
variable [DecidableEq D]

variable {P : Principal} {p : Bytes} {ch : Choice} {t : Task H} {i : Nat} {pc : ResolvePc}
variable {s : Shared H D} {s' : SQLiteStore H D} {pc' : ResolvePc} {w : Pool (Shared H D) (Task H)}

theorem Vouches.step (h : Vouches c s p P) : Vouches c (t.next c ch s).1 p P :=
  h.next (t.next_grows ch s) fun _ => Task.next_row

/-- A principal comes to a `Resolve` from the cache or from the row that accepts the
plaintext. -/
theorem ResolveStep.carries {s : SQLiteStore H D}
    (h : ResolveStep c ch p s pc s' pc') (hP : pc'.carries = some P) :
    pc.carries = some P ∨
      (∃ e, s.cache.entries.lookup (c.hashKey p) = some e ∧ e.principal = P) ∨
      ∃ row, s.db.keys.lookup P.keyID = some row ∧ row.tenantID = P.tenantID ∧
        row.version = P.credentialVersion ∧ c.compare row.hash p = true := by
  cases h with
  | hit e he =>
    cases hP
    exact .inr (.inl ⟨e, he, rfl⟩)
  | found id row hrow hcmp _ hpc =>
    obtain rfl : P = ⟨row.tenantID, id, row.role, row.version⟩ := by
      rcases hpc with rfl | rfl <;> exact (Option.some.inj hP).symm
    exact .inr (.inr ⟨row, hrow, rfl, rfl, hcmp⟩)
  | unbumped | bumped => exact .inl hP
  | failed | unknown | stale | proved | dropped | refused | unsure | missing | stored | missed
  | done => cases hP

theorem Task.step_resolve {s : SQLiteStore H D} (h : (t.step c ch s).2 = .resolve p pc') :
    ∃ pc, t = .resolve p pc ∧ ResolveStep c ch p s pc (t.step c ch s).1 pc' := by
  cases t with
  | resolve q pc =>
    obtain ⟨rfl, rfl⟩ : q = p ∧ (resolveStep c ch q s pc).2 = pc' := by simpa [Task.step] using h
    exact ⟨pc, rfl, resolveStep_spec q s pc⟩
  | rotate | bulkRotate | deleteKey | deleteTenant | updateRole | create | createPreset =>
    simp [Task.step] at h

theorem Sound.next (hs : Sound c s) (ht : Holding c i s t) (ch : Choice) :
    Sound c (t.next c ch s).1 := by
  have hgrows := t.next_grows (c := c) ch s
  constructor
  · intro id row' hrow'
    cases Task.next_row hrow' with
    | kept row old | rotated row _ old => exact hgrows.issued (hs.issued id row old)
    | inserted _ _ _ issued => exact issued
  · intro id row' hrow'
    rw [Task.next] at hrow' ⊢
    split at hrow'
    next hpossible =>
      simp only [hpossible, ↓reduceIte]
      rcases t.step_db c ch s.store with hev | ⟨id', row, hins, -⟩
      · obtain ⟨row, hrow, hre⟩ := hev.keys id row' hrow'
        exact hev.tenants id row' hrow' (hre.tenantID ▸ hs.tenants id row hrow)
      · rw [hins.eq] at hrow' ⊢
        by_cases heq : id = id'
        · subst heq
          rw [lookup_setKey_self] at hrow'
          cases hrow'
          exact hins.tenant
        · rw [lookup_setKey_ne row heq] at hrow'
          exact hs.tenants id row' hrow'
    next hpossible =>
      simp only [hpossible, ↓reduceIte]
      exact hs.tenants id row' hrow'
  · intro id row' hrow' p hp
    cases Task.next_row hrow' with
    | kept row old _ hash => exact hgrows.drawn (hs.secrets id row old p (hash ▸ hp))
    | rotated _ q _ _ _ keyed _ drawn =>
      obtain rfl : p = q := by simpa [keyed p] using hp
      exact drawn
    | inserted q _ _ _ keyed drawn =>
      obtain rfl : p = q := by simpa [keyed p] using hp
      exact drawn
  · intro p e he
    refine Vouches.step ?_
    rw [Task.next] at he
    split at he
    · rcases (t.step_cache c ch s.store).entries he with hold | ⟨q, P, rfl, hkey, rfl⟩
      · exact hs.entries p e hold
      · obtain rfl := c.hashKey_injective hkey
        exact ht p (.set P) P rfl rfl
    · exact hs.entries p e he

theorem Holding.own (hs : Sound c s) (ht : Holding c i s t) (ch : Choice) :
    Holding c i (t.next c ch s).1 (t.next c ch s).2 := by
  intro p pc' P htask hcarries
  refine Vouches.step ?_
  rw [Task.next] at htask
  split at htask
  · obtain ⟨pc, rfl, hstep⟩ := Task.step_resolve htask
    rcases hstep.carries hcarries with hold | ⟨e, he, rfl⟩ | ⟨row, hrow, hten, hver, hcmp⟩
    · exact ht p pc P rfl hold
    · exact hs.entries p e he
    · refine ⟨hs.issued P.keyID row hrow, fun row' hrow' => ?_⟩
      obtain rfl : row = row' := Option.some.inj (hrow.symm.trans hrow')
      exact ⟨hten, hver.ge, fun _ => hcmp⟩
  · exact ht p pc' P htask hcarries

theorem sound_act (h : Holds (Sound c) (Holding c) w)
    (a : Act Call Choice) : Holds (Sound c) (Holding c) ((tenancy c).act w a) := by
  refine h.act (fun call _ => ?_) (fun i ch t _ ht => ?_) fun i ch t j u _ _ hu _ => ?_
  · intro p pc P htask hcarries
    cases call <;> simp only [tenancy, Task.start, Task.resolve.injEq, reduceCtorEq] at htask
    obtain ⟨-, rfl⟩ := htask
    split at hcarries <;> cases hcarries
  · exact ⟨h.1.next (h.2 i t ht) ch, (h.2 i t ht).own h.1 ch⟩
  · exact fun p pc P htask hcarries => (h.2 j u hu p pc P htask hcarries).step

theorem Opening.sound (o : Opening c) : Holds (Sound c) (Holding c) o.pool := by
  refine ⟨⟨fun id row hrow => ?_, o.tenants, o.secrets, fun p e he => ?_⟩, fun i t ht => ?_⟩
  · exact mem_keys.mpr (lookup_isSome.mp (hrow ▸ rfl))
  · simp [Opening.pool, AuthCache.newAuthCache] at he
  · simp [Opening.pool] at ht

theorem Opening.run_sound (o : Opening c) (acts : List (Act Call Choice)) :
    Holds (Sound c) (Holding c) ((tenancy c).run o.pool acts) :=
  run_induction (P := Holds (Sound c) (Holding c)) (fun _ a h => sound_act h a)
    o.sound acts

/-! ## Every principal is right at a moment of the call -/

/-- The row of the key has the tenant and the role of the principal, and accepts the
plaintext. -/
def BornOut (c : Crypto H D) (s : Shared H D) (p : Bytes) (P : Principal) : Prop :=
  ∃ row, s.store.db.keys.lookup P.keyID = some row ∧ row.tenantID = P.tenantID ∧
    row.role = P.role ∧ c.compare row.hash p = true

def ResolvePc.running : ResolvePc → Bool
  | .done _ => false
  | _ => true

theorem ResolveStep.accepts
    (h : ResolveStep c ch p s.store pc s' pc') (hold : Holding c i s (.resolve p pc))
    (hP : pc'.accepts = some P) : pc.accepts = some P ∨ pc.running = true ∧ BornOut c s p P := by
  cases h with
  | proved cached row hrow hten hver =>
    cases hP
    have hvouch := (hold p (.check cached) cached rfl rfl).row row hrow
    exact .inr ⟨rfl, row, hrow, hten, rfl, hvouch.2.2 hver⟩
  | found id row hrow hcmp _ hpc =>
    obtain rfl : P = ⟨row.tenantID, id, row.role, row.version⟩ := by
      rcases hpc with rfl | rfl <;> exact (Option.some.inj hP).symm
    exact .inr ⟨rfl, row, hrow, rfl, rfl, hcmp⟩
  | unbumped | bumped | stored | done => exact .inl hP
  | failed | hit | unknown | stale | dropped | refused | unsure | missing | missed => cases hP

def MomentOf (c : Crypto H D) (w : Pool (Shared H D) (Task H)) (i : Nat) (p : Bytes)
    (P : Principal) : Prop :=
  (∃ pc, w.calls[i]? = some (.resolve p pc) ∧ pc.running = true) ∧ BornOut c w.shared p P

/-- The invariant of one call over the actions since it was started. -/
theorem accepted_moment (hw : Holds (Sound c) (Holding c) w)
    (p : Bytes) (after : List (Act Call Choice))
    (hpc : ((tenancy c).run w (.start (.resolve p) :: after)).calls[w.calls.length]? =
      some (.resolve p pc)) (hP : pc.accepts = some P) :
    ∃ mid rest, after = mid ++ rest ∧
      MomentOf c ((tenancy c).run w (.start (.resolve p) :: mid)) w.calls.length p P := by
  induction after using reverseRecOn generalizing pc with
  | nil =>
    rw [run_cons, run_nil, call_start] at hpc
    obtain ⟨-, rfl⟩ : p = p ∧ (if wellFormed p then .get else .done (.error .invalidKey)) = pc :=
      Task.resolve.inj (Option.some.inj hpc)
    split at hP <;> cases hP
  | append_singleton acts a ih =>
    rw [← cons_append, run_append] at hpc
    set w' := (tenancy c).run w (.start (.resolve p) :: acts) with hw'
    have hsound : Holds (Sound c) (Holding c) w' :=
      run_induction (P := Holds (Sound c) (Holding c)) (fun _ a h => sound_act h a)
        hw (.start (.resolve p) :: acts)
    have hlonger : ∀ {mid rest}, acts = mid ++ rest → acts ++ [a] = mid ++ (rest ++ [a]) := by
      rintro mid rest rfl
      exact append_assoc ..
    rcases call_act_cases hpc with ⟨hsame, -⟩ | ⟨ch, t, rfl, ht, hmoved⟩ | ⟨call, -, hlen, -⟩
    · obtain ⟨mid, rest, hacts, hmoment⟩ := ih hsame hP
      exact ⟨mid, rest ++ [a], hlonger hacts, hmoment⟩
    · have hcases : ∃ pc₀, t = .resolve p pc₀ ∧ (pc₀.accepts = some P ∨
          pc₀.running = true ∧ BornOut c w'.shared p P) := by
        change Task.resolve p pc = (Task.next c ch w'.shared t).2 at hmoved
        rw [Task.next] at hmoved
        split at hmoved
        · obtain ⟨pc₀, rfl, hstep⟩ := Task.step_resolve hmoved.symm
          exact ⟨pc₀, rfl, hstep.accepts (hsound.2 _ _ ht) hP⟩
        · exact ⟨pc, hmoved.symm, .inl hP⟩
      obtain ⟨pc₀, rfl, hacc | ⟨hrunning, hborn⟩⟩ := hcases
      · obtain ⟨mid, rest, hacts, hmoment⟩ := ih ht hacc
        exact ⟨mid, rest ++ [.step _ ch], hlonger hacts, hmoment⟩
      · exact ⟨acts, [.step _ ch], rfl, ⟨pc₀, ht, hrunning⟩, hborn⟩
    · -- the call was started before, so no call is started under its number
      have hlt : w.calls.length < w'.calls.length := started_before (.resolve p) acts
      rw [← hlen] at hlt
      exact absurd hlt (lt_irrefl _)

end

/-! ## A revoked secret stays refused -/

/-- The call's write has taken in the key `k` of tenant `T`: it gave it a new secret or
deleted it. -/
def Task.revokes (k T : String) : Task H → Bool
  | .rotate _ _ id (.flush _) | .rotate _ _ id (.done (.ok _)) => decide (id = k)
  | .bulkRotate _ _ _ (.flush result) | .bulkRotate _ _ _ (.done (.ok result)) =>
    decide (k ∈ result.1.map fun r => r.key.id)
  | .deleteKey _ _ id (.flush _) | .deleteKey _ _ id (.done (.ok _)) => decide (id = k)
  | .deleteTenant id (.flush _) | .deleteTenant id (.done (.ok _)) => decide (id = T)
  | _ => false

def Task.returned : Task H → Bool
  | .resolve _ (.done _) | .rotate _ _ _ (.done _) | .bulkRotate _ _ _ (.done _)
  | .deleteKey _ _ _ (.done _) | .deleteTenant _ (.done _) | .updateRole _ _ _ _ (.done _)
  | .create _ _ _ (.done _) | .createPreset _ _ _ _ (.done _) => true
  | _ => false

/-- A key that exists or existed in the tenant, and a plaintext that was in use. -/
structure Known (k T : String) (p : Bytes) (s : Shared H D) : Prop where
  issued : k ∈ s.issued
  drawn : p ∈ s.drawn
  tenant : ∀ row, s.store.db.keys.lookup k = some row → row.tenantID = T

def Refused (c : Crypto H D) (k : String) (p : Bytes) (s : Shared H D) : Prop :=
  ∀ row, s.store.db.keys.lookup k = some row → c.compare row.hash p = false

theorem KeyRow.Keyed.refuses {q : Bytes} (h : row.Keyed c q) (hne : p ≠ q) :
    c.compare row.hash p = false := by
  rw [h p, decide_eq_false hne]

theorem RotateStep.revokes {pc pc' : RotatePc H} (h : RotateStep c ch actor tenantID id s pc s' pc')
    (hbefore : (Task.rotate actor tenantID id pc).revokes k T = false)
    (hafter : (Task.rotate actor tenantID id pc').revokes k T = true)
    (hrow : s'.db.keys.lookup k = some row) : ∃ p ∈ ch.draws.map Draw.plaintext, row.Keyed c p := by
  cases h with
  | commit read d secret db hd hsecret htx =>
    obtain rfl : id = k := of_decide_eq_true hafter
    obtain ⟨old, -, rfl⟩ := rotateAPIKeyTx_ok htx
    rw [lookup_setKey_self] at hrow
    cases hrow
    exact ⟨d.plaintext, mem_map_of_mem hd, (newSecret_keyed hsecret).2.2⟩
  | flush | done => exact absurd (hafter.symm.trans hbefore) (by decide)
  | failed | read => cases hafter

theorem BulkStep.revokes {exclude : List String}
    {pc pc' : BulkPc H} (h : BulkStep c ch actor tenantID exclude s pc s' pc')
    (hbefore : (Task.bulkRotate actor tenantID exclude pc).revokes k T = false)
    (hafter : (Task.bulkRotate actor tenantID exclude pc').revokes k T = true)
    (hrow : s'.db.keys.lookup k = some row) : ∃ p ∈ ch.draws.map Draw.plaintext, row.Keyed c p := by
  cases h with
  | commit existing rotations db result hnew htx =>
    have hmem : k ∈ result.1.map fun r => r.key.id := of_decide_eq_true hafter
    rw [updateTargets_results htx, map_map] at hmem
    obtain ⟨rot, hrot, rfl⟩ := mem_map.mp hmem
    exact updateTargets_keyed htx (newSecrets_fresh hnew) hrot hrow
  | empty => simp [Task.revokes] at hafter
  | flush | done => exact absurd (hafter.symm.trans hbefore) (by decide)
  | failed | tenant | read => cases hafter

theorem WriteStep.deletesKey (h : WriteStep (deleteAPIKeyWrite actor tenantID id) s pc s' pc')
    (hbefore : (Task.deleteKey actor tenantID id pc : Task H).revokes k T = false)
    (hafter : (Task.deleteKey actor tenantID id pc' : Task H).revokes k T = true) :
    s'.db.keys.lookup k = none := by
  cases h with
  | commit db result htx =>
    obtain rfl : id = k := of_decide_eq_true hafter
    obtain rfl := deleteAPIKeyWrite_ok htx
    exact lookup_erase _ _
  | flush | done => exact absurd (hafter.symm.trans hbefore) (by decide)
  | failed => cases hafter

theorem WriteStep.deletesTenant (h : WriteStep (deleteTenantWrite id) s pc s' pc')
    (hten : ∀ row, s.db.keys.lookup k = some row → row.tenantID = T)
    (hbefore : (Task.deleteTenant id pc : Task H).revokes k T = false)
    (hafter : (Task.deleteTenant id pc' : Task H).revokes k T = true) :
    s'.db.keys.lookup k = none := by
  cases h with
  | commit db result htx =>
    obtain rfl : id = T := of_decide_eq_true hafter
    obtain rfl := deleteTenantWrite_ok htx
    refine Option.eq_none_iff_forall_ne_some.mpr fun row hrow => ?_
    obtain ⟨hold, hne⟩ := lookup_deleteTenant.mp hrow
    exact hne (hten row hold)
  | flush | done => exact absurd (hafter.symm.trans hbefore) (by decide)
  | failed => cases hafter

section
variable [DecidableEq D]

variable {p : Bytes} {k T : String}
variable {s : Shared H D} {ch : Choice} {t : Task H}

theorem Known.next (h : Known k T p s) (t : Task H) (ch : Choice) :
    Known k T p (t.next c ch s).1 := by
  have hgrows := t.next_grows (c := c) ch s
  refine ⟨hgrows.issued h.issued, hgrows.drawn h.drawn, fun row' hrow' => ?_⟩
  cases Task.next_row hrow' with
  | kept row old tenantID => exact tenantID.trans (h.tenant row old)
  | rotated row _ old tenantID => exact tenantID.trans (h.tenant row old)
  | inserted _ _ fresh => exact absurd h.issued fresh

theorem Refused.next (hr : Refused c k p s) (hk : Known k T p s) (t : Task H)
    (ch : Choice) : Refused c k p (t.next c ch s).1 := by
  intro row' hrow'
  cases Task.next_row hrow' with
  | kept row old _ hash =>
    rw [hash]
    exact hr row old
  | rotated row q _ _ _ keyed fresh =>
    exact keyed.refuses fun heq => fresh (heq ▸ hk.drawn)
  | inserted _ _ fresh => exact absurd hk.issued fresh

/-- The write that takes in a key leaves it with a drawn secret, or leaves no row. -/
theorem Task.step_revokes {s : SQLiteStore H D}
    (hten : ∀ row, s.db.keys.lookup k = some row → row.tenantID = T)
    (hbefore : t.revokes k T = false) (hafter : (t.step c ch s).2.revokes k T = true)
    (hrow : (t.step c ch s).1.db.keys.lookup k = some row) :
    ∃ p ∈ ch.draws.map Draw.plaintext, row.Keyed c p := by
  cases t with
  | resolve | updateRole | create | createPreset => cases hafter
  | rotate actor tenantID id pc =>
    exact (rotateStep_spec actor tenantID id s pc).revokes hbefore hafter hrow
  | bulkRotate actor tenantID exclude pc =>
    exact (bulkRotateStep_spec actor tenantID exclude s pc).revokes hbefore hafter hrow
  | deleteKey actor tenantID id pc =>
    have hgone := (writeStep_spec (deleteAPIKeyWrite actor tenantID id) s pc).deletesKey
      hbefore hafter
    rw [Task.step, Prod.map_fst, id_eq, hgone] at hrow
    cases hrow
  | deleteTenant id pc =>
    have hgone := (writeStep_spec (deleteTenantWrite id) s pc).deletesTenant hten hbefore hafter
    rw [Task.step, Prod.map_fst, id_eq, hgone] at hrow
    cases hrow

theorem Task.next_revokes (hk : Known k T p s)
    (hbefore : t.revokes k T = false) (hafter : (t.next c ch s).2.revokes k T = true) :
    Refused c k p (t.next c ch s).1 := by
  rw [Task.next] at hafter ⊢
  split at hafter
  next hpossible =>
    rw [if_pos hpossible]
    intro row hrow
    obtain ⟨q, hq, hkeyed⟩ := Task.step_revokes hk.tenant hbefore hafter hrow
    obtain ⟨d, hd, rfl⟩ := mem_map.mp hq
    exact hkeyed.refuses fun heq => hpossible.2.2.2 d hd (heq ▸ hk.drawn)
  next => exact absurd (hafter.symm.trans hbefore) (by decide)

theorem Task.start_revokes (call : Call) (k T : String) :
    (Task.start call : Task H).revokes k T = false := by
  cases call with
  | resolve | rotateAPIKey | bulkRotateTenantKeys | deleteAPIKey | deleteTenant | updateAPIKeyRole
  | createAPIKey | createAPIKeyWithPlaintext => rfl

/-- Once call `j` has taken in the key, the row of the key refuses the plaintext. -/
def RefusedOnce (c : Crypto H D) (j : Nat) (k T : String) (p : Bytes) (i : Nat) (s : Shared H D)
    (t : Task H) : Prop :=
  i = j → t.revokes k T = true → Refused c k p s

theorem refusedOnce_act {j : Nat} (w : Pool (Shared H D) (Task H)) (a : Act Call Choice)
    (h : Holds (Known k T p) (RefusedOnce c j k T p) w) :
    Holds (Known k T p) (RefusedOnce c j k T p) ((tenancy c).act w a) := by
  refine h.act (fun call _ _ hrev => ?_) (fun i ch t _ ht => ?_) fun i ch t i' u _ _ hu _ => ?_
  · exact absurd (hrev.symm.trans (Task.start_revokes call k T)) (by decide)
  · refine ⟨h.1.next t ch, fun hij hrev => ?_⟩
    cases hbefore : t.revokes k T with
    | false => exact Task.next_revokes h.1 hbefore hrev
    | true => exact (h.2 i t ht hij hbefore).next h.1 t ch
  · exact fun hij hrev => (h.2 i' u hu hij hrev).next h.1 t ch

/-- **Revocation is immediate.**  Every principal a `Resolve` returns is right at a
moment of the call: there its key exists, has the tenant and the role of the principal,
and accepts the plaintext.  So once a rotation or a deletion of the key or of its tenant
has returned, no `Resolve` that starts then accepts as this key a plaintext the key had
before. -/
theorem revocation_immediate (c : Crypto H D) (o : Opening c) (before after : List (Act Call Choice))
    (p : Bytes) (P : Principal)
    (hret : ((tenancy c).run o.pool (before ++ .start (.resolve p) :: after)).calls[
      ((tenancy c).run o.pool before).calls.length]? = some (.resolve p (.done (.ok P)))) :
    (∃ mid rest, after = mid ++ rest ∧
      MomentOf c ((tenancy c).run o.pool (before ++ .start (.resolve p) :: mid))
        ((tenancy c).run o.pool before).calls.length p P) ∧
      ∀ earlier later (j : Nat) k row (t : Task H), before = earlier ++ later →
        ((tenancy c).run o.pool earlier).shared.store.db.keys.lookup k = some row →
        c.compare row.hash p = true →
        (∀ u : Task H, ((tenancy c).run o.pool earlier).calls[j]? = some u →
          u.revokes k row.tenantID = false) →
        ((tenancy c).run o.pool before).calls[j]? = some t → t.returned = true →
        t.revokes k row.tenantID = true → P.keyID ≠ k := by
  have hmoment : ∃ mid rest, after = mid ++ rest ∧
      MomentOf c ((tenancy c).run o.pool (before ++ .start (.resolve p) :: mid))
        ((tenancy c).run o.pool before).calls.length p P := by
    rw [run_append] at hret
    obtain ⟨mid, rest, hafter, hmoment⟩ := accepted_moment (o.run_sound before) p after hret rfl
    exact ⟨mid, rest, hafter, by rwa [run_append]⟩
  refine ⟨hmoment, ?_⟩
  rintro earlier later j k row t rfl hrow haccepts hbefore ht - hrevokes rfl
  obtain ⟨mid, -, -, -, row', hrow', -, -, haccepts'⟩ := hmoment
  have hsound := (o.run_sound earlier).1
  -- from the earlier state on the key is known, and refuses `p` once call `j` has committed
  have hstart : Holds (Known P.keyID row.tenantID p)
      (RefusedOnce c j P.keyID row.tenantID p) ((tenancy c).run o.pool earlier) := by
    refine ⟨⟨hsound.issued _ row hrow, hsound.secrets _ row hrow p haccepts, fun r hr => ?_⟩,
      fun i u hu hij hrev => ?_⟩
    · rw [Option.some.inj (hrow.symm.trans hr)]
    · subst hij
      exact absurd (hrev.symm.trans (hbefore u hu)) (by decide)
  rw [run_append] at ht
  have hcommitted := run_induction refusedOnce_act hstart later
  have hrefused := hcommitted.2 j t ht rfl hrevokes
  have hlater := run_induction
    (P := Holds (fun s => Known P.keyID row.tenantID p s ∧ Refused c P.keyID p s)
      fun _ _ _ => True)
    (fun w a h => show Holds _ _ ((tenancy c).act w a) from h.act (fun _ _ => trivial)
      (fun _ ch t _ _ => ⟨⟨h.1.1.next t ch, h.1.2.next h.1.1 t ch⟩, trivial⟩)
      fun _ _ _ _ _ _ _ _ _ => trivial)
    ⟨⟨hcommitted.1, hrefused⟩, fun _ _ _ => trivial⟩ (.start (.resolve p) :: mid)
  rw [run_append, run_append] at hrow'
  exact absurd ((hlater.1.2 row' hrow').symm.trans haccepts') (by decide)

end

/-! ## Two keys with one plaintext -/

def Choice.quiet (now : Int) : Choice := ⟨now, .stored, false, "", [], none, 0⟩

def sharedPlaintext : Bytes := Utf8.bytes "mak_00000000_aaaaaaaaaaaaaaaaaaaaaaaa"

def sharedRow : KeyRow Bytes :=
  ⟨"t", "ci", sharedPlaintext.take apiKeyPrefixLen, sharedPlaintext, .editor, 0, none, 1⟩

def sharedOpening : Opening Crypto.plain where
  db := ⟨["t"], ⟨[⟨"k1", sharedRow⟩, ⟨"k2", sharedRow⟩], by rw [List.NodupKeys]; decide⟩⟩
  ttl := 0
  maxSize := 0
  now := 0
  drawn := [sharedPlaintext]
  tenants id row h := by
    have hmem := mem_lookup_iff.mp h
    simp only [List.mem_cons, Sigma.mk.injEq, heq_eq_eq, List.not_mem_nil, or_false] at hmem
    rcases hmem with ⟨-, rfl⟩ | ⟨-, rfl⟩ <;> exact List.mem_singleton_self _
  secrets id row h p hp := by
    have hmem := mem_lookup_iff.mp h
    simp only [List.mem_cons, Sigma.mk.injEq, heq_eq_eq, List.not_mem_nil, or_false] at hmem
    have hrow : row = sharedRow := by tauto
    subst hrow
    exact List.mem_singleton.mpr (of_decide_eq_true hp)

/-- A slow `Resolve` reads the first key, which is then rotated; the `Resolve` stores its
principal after the rotation has returned, and the next one meets it in the cache. -/
def staleActs : List (Act Call Choice) :=
  [.start (.resolve sharedPlaintext), .step 0 (.quiet 0), .step 0 (.quiet 0), .step 0 (.quiet 0),
    .start (.rotateAPIKey none "t" "k1"), .step 1 (.quiet 0),
    .step 1 { Choice.quiet 0 with draws := [⟨[1, 2, 3, 4], [5, 6, 7], 0⟩] }, .step 1 (.quiet 0),
    .step 0 (.quiet 0), .step 0 (.quiet 0),
    .start (.resolve sharedPlaintext), .step 2 (.quiet 0), .step 2 (.quiet 0), .step 2 (.quiet 0)]

def resolveActs : List (Act Call Choice) :=
  [.step 3 (.quiet 0), .step 3 (.quiet 0), .step 3 (.quiet 0), .step 3 (.quiet 0), .step 3 (.quiet 0)]

/-- The `Resolve` that meets the stale principal refuses the plaintext, and the one after
it accepts it as the second key, never as the first. -/
theorem revocation_immediate_shared :
    ((tenancy Crypto.plain).run sharedOpening.pool staleActs).calls[2]? =
        some (.resolve sharedPlaintext (.done (.error .invalidKey))) ∧
      (∃ mid rest, resolveActs = mid ++ rest ∧
        MomentOf Crypto.plain ((tenancy Crypto.plain).run sharedOpening.pool
          (staleActs ++ .start (.resolve sharedPlaintext) :: mid))
          ((tenancy Crypto.plain).run sharedOpening.pool staleActs).calls.length sharedPlaintext
          ⟨"t", "k2", .editor, 1⟩) ∧
      "k2" ≠ "k1" := by
  have h := revocation_immediate Crypto.plain sharedOpening staleActs resolveActs sharedPlaintext
    ⟨"t", "k2", .editor, 1⟩ (by decide +kernel)
  have hrotated : ∃ t, ((tenancy Crypto.plain).run sharedOpening.pool staleActs).calls[1]? = some t ∧
      t.returned = true ∧ t.revokes "k1" "t" = true := by
    decide +kernel
  obtain ⟨t, ht, hreturned, hrevokes⟩ := hrotated
  refine ⟨by decide +kernel, h.1, ?_⟩
  exact h.2 [] staleActs 1 "k1" sharedRow t rfl (by decide +kernel) (by decide +kernel)
    (fun u hu => by cases hu) ht hreturned hrevokes

end MockAgents.Tenancy
