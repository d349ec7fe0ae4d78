import MockAgents.Tenancy.Proofs.Authentication
/-!
# Tenant isolation

However the calls interleave, other tenants leave the secret of a key, no key outlives its
tenant, and the auth cache is coherent with the keys.
-/

namespace MockAgents.Tenancy

open Lib List Database System

variable {H D : Type} {c : Crypto H D} {k T tenantID : String} {row : KeyRow H}

def Principal.Foreign (T : String) (A : Principal) : Prop := A.role ≠ .platform ∧ A.tenantID ≠ T

/-- A call that may rotate or delete keys has an actor, who is foreign to the tenant;
`DeleteTenant` has none, and is for another tenant. -/
def Task.Foreign (T : String) : Task H → Prop
  | .rotate actor tenantID _ pc =>
    -- the actor is checked against the tenant of the row that was read
    (∃ A ∈ actor, A.Foreign T) ∧ ∀ read, pc = .tx read → read.tenantID = tenantID
  | .bulkRotate actor _ _ _ | .deleteKey actor _ _ _ => ∃ A ∈ actor, A.Foreign T
  | .deleteTenant id _ => id ≠ T
  | .resolve .. | .updateRole .. | .create .. | .createPreset .. => True

variable {A : Principal} {db db' : Database H} {old : KeyRow H}

theorem authorizeKeyTarget_foreign (hA : A.Foreign row.tenantID)
    (hrow : db.keys.lookup k = some row) (hold : db.key tenantID k = some old) (role : Role) :
    authorizeKeyTarget (some A) tenantID role = .error .forbidden := by
  obtain ⟨hlookup, rfl⟩ := key_eq_some.mp hold
  obtain rfl : old = row := Option.some.inj (hlookup.symm.trans hrow)
  simp [authorizeKeyTarget, hA.1, hA.2]

theorem rotateAPIKeyTx_foreign {read : KeyRow H} {secret : Secret H} (hA : A.Foreign row.tenantID)
    (hrow : db.keys.lookup k = some row) :
    rotateAPIKeyTx (some A) read.tenantID k read secret db ≠ .ok db' := by
  rw [rotateAPIKeyTx]
  cases hold : db.key read.tenantID k with
  | none => simp
  | some old => simp [authorizeKeyTarget_foreign hA hrow hold]

theorem bulkRotateTx_foreign (hA : A.Foreign T) {rotations : List (Rotation H)}
    {result : List NewAPIKeyResult × List Bytes}
    (h : bulkRotateTx (some A) T rotations db = .ok (db', result)) : db' = db := by
  cases rotations with
  | nil => simp_all [bulkRotateTx, checkTargets, updateTargets]
  | cons rot rest =>
    rw [bulkRotateTx, checkTargets] at h
    cases hold : db.key T rot.id <;> simp [hold, authorizeKeyTarget, hA.1, hA.2] at h

variable [DecidableEq D] {ch : Choice} {s : SQLiteStore H D} {t : Task H}

theorem Task.step_foreign (h : t.Foreign T) : (t.step c ch s).2.Foreign T := by
  cases t with
  | rotate actor tenantID id pc =>
    refine ⟨h.1, fun read hread => ?_⟩
    cases pc <;> grind [rotateStep, key_eq_some, h.2]
  | _ => exact h

/-- A foreign call on the key writes nothing. -/
theorem Task.step_refused (h : t.Foreign row.tenantID) (hrow : s.db.keys.lookup k = some row)
    (hthreat : t.threatens k row.tenantID = true) : (t.step c ch s).1.db = s.db := by
  cases t with
  | rotate actor tenantID id pc =>
    obtain ⟨⟨A, rfl, hA⟩, hread⟩ := h
    cases pc <;> grind [Task.step, rotateStep, Task.threatens, rotateAPIKeyTx_foreign]
  | bulkRotate actor tenantID exclude pc =>
    obtain ⟨A, rfl, hA⟩ := h
    cases pc <;> grind [Task.step, bulkRotateStep, Task.threatens, bulkRotateTx_foreign]
  | deleteKey actor tenantID id pc =>
    obtain ⟨A, rfl, hA⟩ := h
    cases pc <;> grind [Task.step, writeStep, Task.threatens, deleteAPIKeyWrite, deleteAPIKeyTx,
      authorizeKeyTarget_foreign]
  | deleteTenant id pc => cases pc <;> simp_all [Task.threatens, Task.Foreign]
  | _ => simp [Task.threatens] at hthreat

/-- **No principal revokes a key of another tenant.**  When every call that rotates or deletes
keys has an actor who is neither of the key's tenant nor a platform principal, and no call
deletes the tenant, the key keeps its tenant and its secret. -/
theorem key_isolated (o : Opening c) (acts : List (Act Call Choice))
    (hrow : o.db.keys.lookup k = some row)
    (hcalls : ∀ call, .start call ∈ acts → (Task.start call : Task H).Foreign row.tenantID) :
    ∃ row', ((tenancy c).run o.pool acts).shared.store.db.keys.lookup k = some row' ∧
      row.SameSecret row' := by
  let I (s : Shared H D) : Prop :=
    k ∈ s.issued ∧ ∃ row', s.store.db.keys.lookup k = some row' ∧ row.SameSecret row'
  refine (foldlRecOn (motive := Holds I fun _ _ t => t.Informed ∧ t.Foreign row.tenantID) acts _
    ⟨⟨?_, row, hrow, .refl row⟩, fun i t ht => ?_⟩ fun w hw a ha => ?_).1.2
  · exact AList.mem_keys.mpr (AList.lookup_isSome.mp (hrow ▸ rfl))
  · simp [Opening.pool] at ht
  · refine hw.act (fun call hcall => ⟨Task.start_informed call, hcalls call (hcall ▸ ha)⟩)
      (fun i ch t _ ht => ?_) fun i ch t j u _ _ hu _ => hw.2 j u hu
    obtain ⟨hissued, row', hrow', hsame⟩ := hw.1
    obtain ⟨hinf, hforeign⟩ := hw.2 i t ht
    by_cases hpossible : ch.Possible w.shared
    · rw [show (tenancy c).next ch w.shared t = _ from if_pos hpossible]
      refine ⟨⟨mem_append_right _ hissued, ?_⟩, Task.step_informed hinf, Task.step_foreign hforeign⟩
      rw [← hsame.tenantID] at hforeign
      cases hthreat : t.threatens k row'.tenantID with
      | true => exact ⟨row', (Task.step_refused hforeign hrow' hthreat).symm ▸ hrow', hsame⟩
      | false =>
        obtain ⟨new, hnew, hkept⟩ := Task.step_spares (c := c) hinf hthreat hrow' rfl
          fun hid => hpossible.2.1 k hid hissued
        exact ⟨new, hnew, hkept.tenantID.trans hsame.tenantID, hkept.hash.trans hsame.hash,
          hkept.version.trans hsame.version, hkept.keyPrefix.trans hsame.keyPrefix⟩
    · rw [show (tenancy c).next ch w.shared t = (w.shared, t) from if_neg hpossible]
      exact ⟨hw.1, hw.2 i t ht⟩

theorem key_isolated_shared : ∃ row, ((tenancy Crypto.plain).run sharedOpening.pool
    [.start (.deleteAPIKey (some ⟨"u", "k", .admin, 1⟩) "t" "k1"),
      .step 0 (.quiet 0)]).shared.store.db.keys.lookup "k1" = some row ∧
        sharedRow.SameSecret row := by
  refine key_isolated sharedOpening _ (by decide +kernel) fun call hcall => ?_
  obtain rfl : call = .deleteAPIKey (some ⟨"u", "k", .admin, 1⟩) "t" "k1" := by simpa using hcall
  exact ⟨_, rfl, by decide, by decide⟩

/-! ## Every state of a run -/

/-- **No key outlives its tenant**; its id was issued, and it accepts only plaintexts that were
drawn or supplied. -/
theorem keys_owned (o : Opening c) (acts : List (Act Call Choice)) :
    let s := ((tenancy c).run o.pool acts).shared
    (∀ id row, s.store.db.keys.lookup id = some row →
      row.tenantID ∈ s.store.db.tenants ∧ id ∈ s.issued) ∧
    ∀ id row, s.store.db.keys.lookup id = some row → ∀ p, c.compare row.hash p = true → p ∈ s.drawn :=
  have h := (o.run_sound acts).1
  ⟨fun id row hrow => ⟨h.tenants id row hrow, h.issued id row hrow⟩, h.secrets⟩

/-- **The auth cache is coherent**: a principal cached for a plaintext, or that a `Resolve` is
about to cache, is of the key's tenant and of no later version, and at the version of the key
the key accepts the plaintext. -/
theorem cache_coherent (o : Opening c) (acts : List (Act Call Choice)) :
    let w := (tenancy c).run o.pool acts
    (∀ p e, w.shared.store.cache.entries.lookup (c.hashKey p) = some e →
      Vouches c w.shared p e.principal) ∧
    ∀ (i : Nat) p pc P, w.calls[i]? = some (.resolve p pc) → pc.carries = some P →
      Vouches c w.shared p P :=
  have h := o.run_sound acts
  ⟨h.1.entries, fun i p pc P hi hcarries => h.2 i _ hi p pc P rfl hcarries⟩

end MockAgents.Tenancy
