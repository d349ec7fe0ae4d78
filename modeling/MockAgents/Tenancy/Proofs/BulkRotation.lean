import MockAgents.Tenancy.Proofs.Revocation
/-!
# Bulk rotation

`BulkRotateTenantKeys` reads the keys of the tenant before its transaction, and the
transaction looks at those only.  A change to one of them is found by its version; a
deletion by the missing row.  A key that is created in between is not looked at, so the
rotation is complete exactly as far as no key of the tenant is inserted meanwhile.
-/

namespace MockAgents.Tenancy

open Lib Lib.Maps List System

variable {H D : Type} {c : Crypto H D}

/-- The ids a call leaves out; an empty one stands for none. -/
abbrev excluded (excludeKeyIDs : List String) : List String :=
  excludeKeyIDs.filter fun kid => kid ≠ ""

/-! ## The transaction -/

variable {tenantID : String} {pc pc' : BulkPc H} {exclude : List String} {actor : Option Principal}
variable {ch : Choice}

theorem updateTargets_targets {rotations : List (Rotation H)}
    (hnodup : (rotations.map Rotation.id).Nodup) {db db' : Database H}
    {results : List NewAPIKeyResult} {oldPrefixes : List Bytes}
    (h : updateTargets tenantID db rotations = .ok (db', results, oldPrefixes)) {rot : Rotation H}
    (hrot : rot ∈ rotations) :
    ∃ row, db.keys.lookup rot.id = some row ∧ row.tenantID = tenantID ∧
      db'.keys.lookup rot.id = some (row.rotated rot.secret.keyPrefix rot.secret.hash) := by
  induction rotations generalizing db results oldPrefixes with
  | nil => cases hrot
  | cons first rest ih =>
    obtain ⟨row, _, _, hrow, -, hrest, -, -⟩ := updateTargets_cons h
    obtain ⟨hlookup, hten⟩ := Database.key_eq_some.mp hrow
    rw [map_cons, nodup_cons] at hnodup
    rcases mem_cons.mp hrot with rfl | hmem
    · refine ⟨row, hlookup, hten, updateTargets_spares hrest (Database.lookup_setKey_self ..) ?_⟩
      intro _ r hr heq
      exact hnodup.1 (heq ▸ mem_map_of_mem hr)
    · obtain ⟨row', hrow', hten', hafter⟩ := ih hnodup.2 hrest hmem
      have hne : rot.id ≠ first.id := fun heq => hnodup.1 (heq ▸ mem_map_of_mem hmem)
      rw [Database.lookup_setKey_ne _ hne] at hrow'
      exact ⟨row', hrow', hten', hafter⟩

/-- What a bulk rotation that returns `results` does in the step that fixes them: they
list the keys the tenant then has, but for the excluded ones, each once, and each of
these has got the plaintext the results give for it. -/
structure RotatedAll (c : Crypto H D) (s s' : Shared H D) (tenantID : String)
    (excludeKeyIDs : List String) (results : List NewAPIKeyResult) : Prop where
  once : (results.map fun r => r.key.id).Nodup
  all : ∀ id, id ∈ results.map (fun r => r.key.id) ↔
    ∃ row, s'.store.db.keys.lookup id = some row ∧ row.tenantID = tenantID ∧
      id ∉ excluded excludeKeyIDs
  renewed : ∀ r ∈ results, ∃ row row', s.store.db.keys.lookup r.key.id = some row ∧
    s'.store.db.keys.lookup r.key.id = some row' ∧ row'.Keyed c r.plaintext ∧
    c.compare row.hash r.plaintext = false

def Task.rotating (T : String) : Task H → Bool
  | .bulkRotate _ tenantID _ (.tx _) => decide (tenantID = T)
  | _ => false

def Covers (_ : Nat) (s : Shared H D) (t : Task H) : Prop :=
  ∀ actor tenantID exclude existing, t = .bulkRotate actor tenantID exclude (.tx existing) →
    ∀ id row, s.store.db.keys.lookup id = some row → row.tenantID = tenantID →
      id ∉ excluded exclude → id ∈ existing.map Sigma.fst

theorem BulkStep.rotatedAll {s s' : Shared H D}
    (h : BulkStep c ch actor tenantID exclude s.store pc s'.store pc')
    (hsecrets : ∀ id row, s.store.db.keys.lookup id = some row →
      ∀ p, c.compare row.hash p = true → p ∈ s.drawn)
    (hdraws : ∀ d ∈ ch.draws, d.plaintext ∉ s.drawn)
    (hinf : (Task.bulkRotate actor tenantID exclude pc).Informed) {i : Nat}
    (hcovers : Covers i s (.bulkRotate actor tenantID exclude pc))
    {result : List NewAPIKeyResult × List Bytes} (hbefore : pc.result ≠ some result)
    (hafter : pc'.result = some result) : RotatedAll c s s' tenantID exclude result.1 := by
  generalize hstore : s'.store = store' at h
  cases h with
  | commit existing rotations db _ hnew htx =>
    cases hafter
    obtain ⟨hmap, hdrawn⟩ := newSecrets_ok hnew
    have hids : rotations.map Rotation.id = existing.map Sigma.fst := by
      rw [← hmap, map_map]
      rfl
    have hresults : result.1.map (fun r => r.key.id) = existing.map Sigma.fst := by
      rw [updateTargets_results htx, map_map, ← hids]
      rfl
    have hnodup : (rotations.map Rotation.id).Nodup := hids ▸ hinf.1
    have hstore' : s'.store.db = db := by rw [hstore]
    refine ⟨hresults ▸ hinf.1, fun id => ?_, fun r hr => ?_⟩
    · rw [hresults, hstore']
      constructor
      · intro hid
        obtain ⟨rot, hrot, rfl⟩ := mem_map.mp (hids ▸ hid)
        obtain ⟨row, -, hten, hrow'⟩ := updateTargets_targets hnodup htx hrot
        obtain ⟨e, he, heq⟩ := mem_map.mp hid
        exact ⟨_, hrow', hten, heq ▸ (hinf.2 e he).2⟩
      · rintro ⟨row', hrow', hten, hout⟩
        obtain ⟨row, hrow, hre⟩ := (updateTargets_evolves htx (newSecrets_fresh hnew)).keys id row' hrow'
        exact hcovers _ _ _ _ rfl id row hrow (hre.tenantID ▸ hten) hout
    · rw [updateTargets_results htx] at hr
      obtain ⟨rot, hrot, rfl⟩ := mem_map.mp hr
      obtain ⟨row, hrow, -, hrow'⟩ := updateTargets_targets hnodup htx hrot
      obtain ⟨d, hd, hplain, hkeyed⟩ := hdrawn rot hrot
      refine ⟨row, _, hrow, hstore' ▸ hrow', ?_, ?_⟩
      · change ∀ q, c.compare rot.secret.hash q = decide (q = rot.secret.plaintext)
        rw [hplain]
        exact hkeyed
      · refine Bool.eq_false_iff.mpr fun haccepts => ?_
        exact hdraws d hd (hplain ▸ hsecrets _ row hrow _ haccepts)
  | empty hnone =>
    cases hafter
    refine ⟨nodup_nil, fun id => ?_, by simp⟩
    refine ⟨fun hid => absurd hid not_mem_nil, ?_⟩
    rintro ⟨row, hrow, hten, hout⟩
    rw [hstore] at hrow
    have hmem := ((tenantKeys_spec s.store.db tenantID exclude).2 ⟨id, row⟩).mpr ⟨hrow, hten, hout⟩
    rw [hnone] at hmem
    cases hmem
  | flush => exact absurd hafter hbefore
  | done => exact absurd hafter hbefore
  | failed | tenant | read => cases hafter

/-- A failed call changes nothing: the step that changes the table fixes the result. -/
theorem BulkStep.unchanged {s s' : SQLiteStore H D}
    (h : BulkStep c ch actor tenantID exclude s pc s' pc') (hpc' : pc'.result = none) :
    s'.db = s.db := by
  cases h with
  | commit => cases hpc'
  | failed | tenant | empty | read | flush | done => rfl

theorem BulkStep.result {s s' : SQLiteStore H D}
    (h : BulkStep c ch actor tenantID exclude s pc s' pc')
    {result : List NewAPIKeyResult × List Bytes} (hpc : pc.result = some result) :
    pc'.result = some result := by
  cases h with
  | flush | done => exact hpc
  | failed _ _ hopen => exact absurd (hopen.symm.trans hpc) (by simp)
  | tenant | empty | read | commit => cases hpc

/-! ## Runs -/

section
variable [DecidableEq D]

variable {exclude : List String} {tenantID : String} {actor : Option Principal}

theorem Task.next_bulkRotate {t : Task H} {ch : Choice} {s : Shared H D} {pc' : BulkPc H}
    (h : (t.next c ch s).2 = .bulkRotate actor tenantID exclude pc') :
    ∃ pc, t = .bulkRotate actor tenantID exclude pc ∧
      (t.next c ch s = (s, t) ∨ ch.Possible s ∧
        BulkStep c ch actor tenantID exclude s.store pc (t.next c ch s).1.store pc') := by
  rw [Task.next] at h ⊢
  split at h
  next hpossible =>
    rw [if_pos hpossible]
    cases t with
    | bulkRotate actor' tenantID' exclude' pc =>
      obtain ⟨rfl, rfl, rfl, rfl⟩ : actor' = actor ∧ tenantID' = tenantID ∧ exclude' = exclude ∧
          (bulkRotateStep c ch actor' tenantID' exclude' s.store pc).2 = pc' := by
        simpa [Task.step] using h
      exact ⟨pc, rfl, .inr ⟨hpossible, bulkRotateStep_spec ..⟩⟩
    | resolve | rotate | deleteKey | deleteTenant | updateRole | create | createPreset =>
      simp [Task.step] at h
  next hpossible =>
    rw [if_neg hpossible]
    exact ⟨pc', h, .inl rfl⟩

/-- A key of the tenant is inserted only while no bulk rotation of the tenant stands
between its read and its transaction. -/
def SettledInsert (w : Pool (Shared H D) (Task H)) : Act Call Choice → Prop
  | .start _ => True
  | .step i _ => ∀ t ∈ w.calls[i]?, ∀ T ∈ t.insertsInto, ∀ u ∈ w.calls, u.rotating T = false

instance (w : Pool (Shared H D) (Task H)) : ∀ a, Decidable (SettledInsert w a)
  | .start _ => inferInstanceAs (Decidable True)
  | .step i _ => inferInstanceAs
      (Decidable (∀ t ∈ w.calls[i]?, ∀ T ∈ t.insertsInto, ∀ u ∈ w.calls, u.rotating T = false))

theorem covers_act {w : Pool (Shared H D) (Task H)} {a : Act Call Choice}
    (h : Holds (fun _ => True) Covers w) (ha : SettledInsert w a) :
    Holds (fun _ => True) Covers ((tenancy c).act w a) := by
  refine h.act (fun call _ => ?_) (fun i ch t _ ht => ⟨trivial, ?_⟩) fun i ch t j u hstep ht hu _ => ?_
  · intro actor tenantID exclude existing htask
    cases call <;> simp [tenancy, Task.start] at htask
  · intro actor tenantID exclude existing htask id row hrow hten hout
    change (Task.next c ch w.shared t).2 = _ at htask
    change (Task.next c ch w.shared t).1.store.db.keys.lookup id = some row at hrow
    obtain ⟨pc, rfl, hsame | ⟨-, hstep⟩⟩ := Task.next_bulkRotate htask
    · rw [hsame] at htask hrow
      exact h.2 i _ ht actor tenantID exclude existing htask id row hrow hten hout
    · generalize (Task.next c ch w.shared (.bulkRotate actor tenantID exclude pc)).1.store = store'
        at hstep hrow
      cases hstep with
      | read =>
        exact mem_map_of_mem
          (((tenantKeys_spec w.shared.store.db tenantID exclude).2 ⟨id, row⟩).mpr ⟨hrow, hten, hout⟩)
  · subst hstep
    intro actor tenantID exclude existing htask id row hrow hten hout
    subst htask
    have hold := h.2 j _ hu actor tenantID exclude existing rfl id
    cases Task.next_row hrow with
    | kept old hlookup tenantID => exact hold old hlookup (tenantID ▸ hten) hout
    | rotated old _ hlookup tenantID => exact hold old hlookup (tenantID ▸ hten) hout
    | inserted _ _ _ _ _ _ _ into =>
      -- the bulk rotation would stand between its read and its transaction
      have hsettled := ha t ht row.tenantID into _ (mem_of_getElem? hu)
      simp [Task.rotating, hten] at hsettled

/-- The call is this bulk rotation, at a place with the property. -/
def Task.BulkAt (actor : Option Principal) (tenantID : String) (exclude : List String)
    (Q : BulkPc H → Prop) (t : Task H) : Prop :=
  ∃ pc, t = .bulkRotate actor tenantID exclude pc ∧ Q pc

theorem Task.start_bulkAt (call : Call) (actor : Option Principal) (tenantID : String)
    (exclude : List String) (result : List NewAPIKeyResult × List Bytes) :
    ¬ (Task.start call : Task H).BulkAt actor tenantID exclude fun pc => pc.result = some result := by
  rintro ⟨pc, htask, hresult⟩
  cases call with
  | bulkRotateTenantKeys =>
    cases htask
    cases hresult
  | resolve | rotateAPIKey | deleteAPIKey | deleteTenant | updateAPIKeyRole | createAPIKey
  | createAPIKeyWithPlaintext => simp [Task.start] at htask

theorem Task.next_bulkAt {result : List NewAPIKeyResult × List Bytes} (ch : Choice) (s : Shared H D)
    (t : Task H) (h : t.BulkAt actor tenantID exclude fun pc => pc.result = some result) :
    (t.next c ch s).2.BulkAt actor tenantID exclude fun pc => pc.result = some result := by
  obtain ⟨pc, rfl, hresult⟩ := h
  rw [Task.next]
  split
  · exact ⟨_, rfl, (bulkRotateStep_spec actor tenantID exclude s.store pc).result hresult⟩
  · exact ⟨pc, rfl, hresult⟩

theorem failed_bulk_unchanged (w : Pool (Shared H D) (Task H)) (i : Nat) (ch : Choice)
    (post : List (Act Call Choice)) {err : Err}
    (h : ((tenancy c).run w (.step i ch :: post)).calls[i]? =
      some (.bulkRotate actor tenantID exclude (.done (.error err)))) :
    ((tenancy c).act w (.step i ch)).shared.store.db = w.shared.store.db := by
  cases ht : w.calls[i]? with
  | none => rw [act_step_none ht]
  | some t =>
    have hcall : ((tenancy c).act w (.step i ch)).calls[i]? = some (Task.next c ch w.shared t).2 :=
      (act_step ht ch).2
    rw [(act_step ht ch).1]
    change (Task.next c ch w.shared t).1.store.db = w.shared.store.db
    by_cases hbulk : t.BulkAt actor tenantID exclude fun _ => True
    · obtain ⟨pc, rfl, -⟩ := hbulk
      have hnext : ∃ pc', (Task.next c ch w.shared (.bulkRotate actor tenantID exclude pc)).2 =
          .bulkRotate actor tenantID exclude pc' := by
        rw [Task.next]
        split
        · exact ⟨_, rfl⟩
        · exact ⟨pc, rfl⟩
      obtain ⟨pc', hpc'⟩ := hnext
      obtain ⟨_, heq, hsame | ⟨-, hstep⟩⟩ := Task.next_bulkRotate hpc'
      · rw [hsame]
      · cases heq
        refine hstep.unchanged (Option.eq_none_iff_forall_ne_some.mpr fun result hresult => ?_)
        obtain ⟨t', ht', hat⟩ : ∃ t', ((tenancy c).run _ post).calls[i]? = some t' ∧
            t'.BulkAt actor tenantID exclude fun pc => pc.result = some result :=
          call_run_of_some Task.next_bulkAt hcall ⟨pc', hpc', hresult⟩ post
        rw [run_cons] at h
        obtain ⟨pc'', heq, hresult'⟩ := hat
        rw [h, heq] at ht'
        cases ht'
        cases hresult'
    · obtain ⟨t', ht', hnot⟩ : ∃ t', ((tenancy c).run w (.step i ch :: post)).calls[i]? = some t' ∧
          ¬ t'.BulkAt actor tenantID exclude fun _ => True := by
        refine call_run_of_some ?_ ht hbulk (.step i ch :: post)
        rintro ch s t hnot ⟨pc', htask, -⟩
        obtain ⟨pc, rfl, -⟩ := Task.next_bulkRotate htask
        exact hnot ⟨pc, rfl, trivial⟩
      rw [h] at ht'
      cases ht'
      exact absurd ⟨_, rfl, trivial⟩ hnot

/-- **Bulk rotation is complete or has no effect.**  In a run in which no key of a tenant
is inserted between the read and the transaction of a bulk rotation of it: a bulk rotation
that returned an error has changed no row in any of its steps, and one that returned
results did so in one step, which rotated exactly the keys the tenant then had, but for
the excluded ones. -/
theorem bulk_rotation_complete (c : Crypto H D) (o : Opening c) (acts : List (Act Call Choice))
    (hsettled : (tenancy c).Steps SettledInsert o.pool acts) (i : Nat) (actor : Option Principal)
    (tenantID : String) (exclude : List String) :
    (∀ err, ((tenancy c).run o.pool acts).calls[i]? =
        some (.bulkRotate actor tenantID exclude (.done (.error err))) →
      ∀ pre ch post, acts = pre ++ .step i ch :: post →
        ((tenancy c).run o.pool (pre ++ [.step i ch])).shared.store.db =
          ((tenancy c).run o.pool pre).shared.store.db) ∧
      ∀ results oldPrefixes, ((tenancy c).run o.pool acts).calls[i]? =
          some (.bulkRotate actor tenantID exclude (.done (.ok (results, oldPrefixes)))) →
        ∃ pre ch post, acts = pre ++ .step i ch :: post ∧
          RotatedAll c ((tenancy c).run o.pool pre).shared
            ((tenancy c).run o.pool (pre ++ [.step i ch])).shared tenantID exclude results := by
  constructor
  · rintro err herr pre ch post rfl
    rw [run_append] at herr ⊢
    exact failed_bulk_unchanged _ i ch post herr
  · intro results oldPrefixes hok
    obtain ⟨pre, ch, post, t, rfl, ht, hbefore, pc', hpc', hresult⟩ :=
      exists_step_of_reached
        (fun call => Task.start_bulkAt call actor tenantID exclude _)
        (fun t ht => by simp [Opening.pool] at ht) hok ⟨_, rfl, rfl⟩
    refine ⟨pre, ch, post, rfl, ?_⟩
    set w := (tenancy c).run o.pool pre with hw
    have hcovers : Holds (fun _ => True) Covers w :=
      (steps_append.mp hsettled).1.run_induction (fun _ _ => covers_act)
        ⟨trivial, fun j u hu => by simp [Opening.pool] at hu⟩
    rw [run_append]
    change RotatedAll c w.shared ((tenancy c).act w (.step i ch)).shared tenantID exclude results
    rw [(act_step ht ch).1]
    obtain ⟨pc, rfl, hsame | ⟨hpossible, hstep⟩⟩ := Task.next_bulkRotate hpc'
    · have hstill : Task.bulkRotate actor tenantID exclude pc = .bulkRotate actor tenantID exclude pc' := by
        change (Task.next c ch w.shared _).2 = _ at hpc'
        rwa [hsame] at hpc'
      exact absurd ⟨pc', hstill, hresult⟩ hbefore
    · exact hstep.rotatedAll (o.run_sound pre).1.secrets hpossible.2.2.2
        ((run_informed o pre).2 i _ ht) (hcovers.2 i _ ht)
        (fun hpc => hbefore ⟨pc, rfl, hpc⟩) hresult

end

/-! ## A key created meanwhile -/

def bulkReadActs : List (Act Call Choice) :=
  [.start (.bulkRotateTenantKeys none "t" []), .step 0 (.quiet 0), .step 0 (.quiet 0)]

def bulkCommitActs : List (Act Call Choice) :=
  [.step 0 { Choice.quiet 0 with draws := [⟨[1], [2], 0⟩, ⟨[3], [4], 0⟩] }, .step 0 (.quiet 0)]

def bulkResults : List NewAPIKeyResult :=
  [("k1", (⟨[1], [2], 0⟩ : Draw)), ("k2", ⟨[3], [4], 0⟩)].map fun e =>
    ⟨⟨e.1, "t", "ci", (generateAPIKey e.2).2, .editor, 0⟩, e.2.plaintext⟩

def bulkOldPrefixes : List Bytes := List.replicate 2 (sharedPlaintext.take apiKeyPrefixLen)

/-- A bulk rotation that runs alone. -/
theorem bulk_rotation_complete_alone :
    ∃ pre ch post, bulkReadActs ++ bulkCommitActs = pre ++ .step 0 ch :: post ∧
      RotatedAll Crypto.plain ((tenancy Crypto.plain).run sharedOpening.pool pre).shared
        ((tenancy Crypto.plain).run sharedOpening.pool (pre ++ [.step 0 ch])).shared "t" []
        bulkResults :=
  (bulk_rotation_complete Crypto.plain sharedOpening (bulkReadActs ++ bulkCommitActs)
    (by decide +kernel) 0 none "t" []).2 bulkResults bulkOldPrefixes (by decide +kernel)

/-- A key created between the read and the transaction exists when the rotation commits
and keeps its secret, and the results do not list it. -/
theorem bulk_rotation_misses_created :
    let create : List (Act Call Choice) := [.start (.createAPIKey "t" "new" .editor),
      .step 1 (.quiet 0), .step 1 { Choice.quiet 0 with
        draws := [⟨[5], [6], 0⟩], keyID := some "k3" }]
    let w := (tenancy Crypto.plain).run sharedOpening.pool (bulkReadActs ++ create)
    let w' := (tenancy Crypto.plain).run w bulkCommitActs
    w'.calls[0]? = some (.bulkRotate none "t" [] (.done (.ok (bulkResults, bulkOldPrefixes)))) ∧
      "k3" ∉ bulkResults.map (fun r => r.key.id) ∧
      (w.shared.store.db.keys.lookup "k3").map KeyRow.tenantID = some "t" ∧
      w'.shared.store.db.keys.lookup "k3" = w.shared.store.db.keys.lookup "k3" := by
  decide +kernel

end MockAgents.Tenancy
