import MockAgents.Tenancy.Store
/-!
# What one step does

One lemma for each thing a step can change: the rows of the table, the entries of the
cache, and the failures it remembers.  Every invariant of the store is derived from
these three.
-/

namespace MockAgents.Tenancy

open Lib Lib.Maps List Option AList Database Draw AuthCache

variable {H D : Type}

/-! ## Rows -/

def KeyRow.Keyed (c : Crypto H D) (row : KeyRow H) (p : Bytes) : Prop :=
  ∀ q, c.compare row.hash q = decide (q = p)

/-- A row after some writes: it has its secret still, or at a later version one of the
`fresh` plaintexts. -/
structure KeyRow.Renewed (c : Crypto H D) (fresh : List Bytes) (row row' : KeyRow H) : Prop where
  tenantID : row'.tenantID = row.tenantID
  secret : (row'.hash = row.hash ∧ row'.version = row.version ∧ row'.keyPrefix = row.keyPrefix) ∨
    (row.version < row'.version ∧ ∃ p ∈ fresh, row'.Keyed c p)

theorem KeyRow.Renewed.refl (c : Crypto H D) (fresh : List Bytes) (row : KeyRow H) :
    row.Renewed c fresh row :=
  ⟨rfl, .inl ⟨rfl, rfl, rfl⟩⟩

theorem KeyRow.Renewed.trans {c : Crypto H D} {fresh : List Bytes} {row row' row'' : KeyRow H}
    (h : row.Renewed c fresh row') (h' : row'.Renewed c fresh row'') :
    row.Renewed c fresh row'' := by
  refine ⟨h'.tenantID.trans h.tenantID, ?_⟩
  rcases h.secret, h'.secret with ⟨⟨hh, hv, hp⟩ | ⟨hlt, p, hp, hk⟩, ⟨hh', hv', hp'⟩ | ⟨hlt', p', hp', hk'⟩⟩
  · exact .inl ⟨hh'.trans hh, hv'.trans hv, hp'.trans hp⟩
  · exact .inr ⟨hv ▸ hlt', p', hp', hk'⟩
  · exact .inr ⟨hv' ▸ hlt, p, hp, fun q => by rw [hh', hk q]⟩
  · exact .inr ⟨hlt.trans hlt', p', hp', hk'⟩

theorem newSecret_keyed {c : Crypto H D} {d : Draw} {secret : Secret H}
    (h : newSecret c d = .ok secret) :
    secret.plaintext = d.plaintext ∧ secret.keyPrefix = (generateAPIKey d).2 ∧
      ∀ q, c.compare secret.hash q = decide (q = d.plaintext) := by
  rw [newSecret] at h
  split at h
  · cases h
  next hash hgen =>
    cases h
    exact ⟨rfl, rfl, c.compare_generate hgen⟩

theorem KeyRow.Renewed.rotated {c : Crypto H D} {fresh : List Bytes} (row : KeyRow H)
    {secret : Secret H} {p : Bytes} (hp : p ∈ fresh)
    (hk : ∀ q, c.compare secret.hash q = decide (q = p)) :
    row.Renewed c fresh (row.rotated secret.keyPrefix secret.hash) :=
  ⟨rfl, .inr ⟨Int.lt_succ row.version, p, hp, hk⟩⟩

namespace Database

@[simp] theorem lookup_setKey_self (db : Database H) (id : String) (row : KeyRow H) :
    (db.setKey id row).keys.lookup id = some row :=
  lookup_insert _

variable {id id' : String} {db : Database H} {row : KeyRow H}

theorem lookup_setKey_ne (row : KeyRow H) (h : id' ≠ id) :
    (db.setKey id row).keys.lookup id' = db.keys.lookup id' :=
  lookup_insert_ne h

theorem key_eq_some {tenantID id : String} :
    db.key tenantID id = some row ↔ db.keys.lookup id = some row ∧ row.tenantID = tenantID := by
  simp [key, filter_eq_some_iff]

theorem authority_eq_some :
    db.authority id = some row ↔ db.keys.lookup id = some row ∧ row.tenantID ∈ db.tenants := by
  simp [authority, hasTenant, filter_eq_some_iff]

theorem mem_candidates {sh : Shuffle} {keyPrefix : Bytes} {e : Sigma fun _ : String => KeyRow H} :
    e ∈ db.candidates sh keyPrefix ↔ db.keys.lookup e.1 = some e.2 ∧ e.2.keyPrefix = keyPrefix := by
  rw [candidates, mem_filter, sh.mem_list, decide_eq_true_eq, ← mem_lookup_iff, mem_def]

/-- The keys of `db'` are keys of `db`, renewed. -/
structure Evolves (c : Crypto H D) (fresh : List Bytes) (db db' : Database H) : Prop where
  tenants : ∀ id row, db'.keys.lookup id = some row → row.tenantID ∈ db.tenants →
    row.tenantID ∈ db'.tenants
  keys : ∀ id row', db'.keys.lookup id = some row' →
    ∃ row, db.keys.lookup id = some row ∧ row.Renewed c fresh row'

variable {c : Crypto H D} {fresh : List Bytes}

theorem Evolves.refl (c : Crypto H D) (fresh : List Bytes) (db : Database H) :
    db.Evolves c fresh db :=
  ⟨fun _ _ _ h => h, fun _ row' h => ⟨row', h, .refl c fresh row'⟩⟩

theorem Evolves.trans {db db' db'' : Database H} (h : db.Evolves c fresh db')
    (h' : db'.Evolves c fresh db'') : db.Evolves c fresh db'' := by
  have hkeys : ∀ id row'', db''.keys.lookup id = some row'' → ∃ row' row,
      db'.keys.lookup id = some row' ∧ db.keys.lookup id = some row ∧
        row.Renewed c fresh row' ∧ row'.Renewed c fresh row'' := by
    intro id row'' hrow''
    obtain ⟨row', hrow', hre'⟩ := h'.keys id row'' hrow''
    obtain ⟨row, hrow, hre⟩ := h.keys id row' hrow'
    exact ⟨row', row, hrow', hrow, hre, hre'⟩
  constructor
  · intro id row'' hrow'' hmem
    obtain ⟨row', -, hrow', -, -, hre'⟩ := hkeys id row'' hrow''
    refine h'.tenants id row'' hrow'' ?_
    rw [hre'.tenantID] at hmem ⊢
    exact h.tenants id row' hrow' hmem
  · intro id row'' hrow''
    obtain ⟨row', row, -, hrow, hre, hre'⟩ := hkeys id row'' hrow''
    exact ⟨row, hrow, hre.trans hre'⟩

theorem Evolves.setKey {row row' : KeyRow H} (hrow : db.keys.lookup id = some row)
    (h : row.Renewed c fresh row') : db.Evolves c fresh (db.setKey id row') := by
  refine ⟨fun _ _ _ hmem => hmem, fun id' row'' hrow'' => ?_⟩
  rcases lookup_of_insert hrow'' with ⟨rfl, rfl⟩ | ⟨-, hrow''⟩
  · exact ⟨row, hrow, h⟩
  · exact ⟨row'', hrow'', .refl c fresh row''⟩

theorem Evolves.touch (db : Database H) (id : String) (lastUsed : Int) :
    db.Evolves c fresh (db.touch id lastUsed) := by
  rw [Database.touch]
  split
  · exact .refl c fresh db
  next row hrow => exact .setKey hrow ⟨rfl, .inl ⟨rfl, rfl, rfl⟩⟩

theorem lookup_deleteTenant :
    (db.deleteTenant id).keys.lookup id' = some row ↔
      db.keys.lookup id' = some row ∧ row.tenantID ≠ id := by
  simp [Database.deleteTenant, lookup_keepIf, filter_eq_some_iff]

theorem Evolves.deleteTenant (db : Database H) (id : String) :
    db.Evolves c fresh (db.deleteTenant id) := by
  refine ⟨fun id' row hrow hmem => ?_, fun id' row hrow => ?_⟩
  · have hne := (lookup_deleteTenant.mp hrow).2
    simp [Database.deleteTenant, hmem, hne]
  · exact ⟨row, (lookup_deleteTenant.mp hrow).1, .refl c fresh row⟩

theorem Evolves.erase (db : Database H) (id : String) :
    db.Evolves c fresh { db with keys := db.keys.erase id } :=
  ⟨fun _ _ _ hmem => hmem, fun _ row hrow => ⟨row, lookup_of_erase hrow, .refl c fresh row⟩⟩

end Database

/-! ## Transactions -/

section
variable {c : Crypto H D} {fresh : List Bytes}

variable {db db' : Database H} {tenantID id : String} {actor : Option Principal}
variable {rotations : List (Rotation H)} {oldPrefixes : List Bytes} {results : List NewAPIKeyResult}

theorem rotateAPIKeyTx_ok {read : KeyRow H} {secret : Secret H}
    (h : rotateAPIKeyTx actor tenantID id read secret db = .ok db') :
    ∃ row, db.keys.lookup id = some row ∧
      db' = db.setKey id (row.rotated secret.keyPrefix secret.hash) := by
  rw [rotateAPIKeyTx] at h
  split at h
  · cases h
  next row hrow =>
    split at h
    · cases h
    · split_ifs at h
      cases h
      exact ⟨row, (key_eq_some.mp hrow).1, rfl⟩

theorem newSecrets_ok {failure : Err} {existing : List (Sigma fun _ : String => KeyRow H)}
    {draws : List Draw} (h : newSecrets c failure existing draws = .ok rotations) :
    rotations.map (fun rot => (⟨rot.id, rot.read⟩ : Sigma fun _ : String => KeyRow H)) = existing ∧
      ∀ rot ∈ rotations, ∃ d ∈ draws, rot.secret.plaintext = d.plaintext ∧
        ∀ q, c.compare rot.secret.hash q = decide (q = d.plaintext) := by
  induction existing generalizing draws rotations with
  | nil =>
    cases h
    exact ⟨rfl, by simp⟩
  | cons e rest ih =>
    cases draws with
    | nil =>
      cases h
    | cons d draws =>
      rw [newSecrets] at h
      split at h
      · cases h
      next secret hsecret =>
        split at h
        · cases h
        next rotations' hrest =>
          cases h
          obtain ⟨hmap, hdrawn⟩ := ih hrest
          obtain ⟨hplain, -, hkeyed⟩ := newSecret_keyed hsecret
          refine ⟨by rw [map_cons, hmap], fun rot hrot => ?_⟩
          rcases mem_cons.mp hrot with rfl | hrot
          · exact ⟨d, mem_cons_self, hplain, hkeyed⟩
          · obtain ⟨d', hd', h'⟩ := hdrawn rot hrot
            exact ⟨d', mem_cons_of_mem d hd', h'⟩

/-- What the guarded updates do when all of them succeed. -/
theorem updateTargets_cons {rot : Rotation H} {rest : List (Rotation H)}
    (h : updateTargets tenantID db (rot :: rest) = .ok (db', results, oldPrefixes)) :
    ∃ row results' oldPrefixes', db.key tenantID rot.id = some row ∧
      row.version = rot.read.version ∧
      updateTargets tenantID
        (db.setKey rot.id (row.rotated rot.secret.keyPrefix rot.secret.hash)) rest =
          .ok (db', results', oldPrefixes') ∧
      results = rot.result tenantID :: results' ∧ oldPrefixes = rot.read.keyPrefix :: oldPrefixes' := by
  rw [updateTargets] at h
  split at h
  · cases h
  next row hrow =>
    rw [filter_eq_some_iff, Bool.and_eq_true, decide_eq_true_eq, decide_eq_true_eq] at hrow
    split at h
    · cases h
    next hrest =>
      cases h
      exact ⟨row, _, _, hrow.1, hrow.2.2, hrest, rfl, rfl⟩

variable (h : updateTargets tenantID db rotations = .ok (db', results, oldPrefixes))
include h

theorem updateTargets_evolves
    (hfresh : ∀ rot ∈ rotations, ∃ p ∈ fresh, ∀ q, c.compare rot.secret.hash q = decide (q = p)) :
    db.Evolves c fresh db' := by
  induction rotations generalizing db results oldPrefixes with
  | nil =>
    rw [updateTargets] at h
    cases h
    exact .refl c fresh _
  | cons rot rest ih =>
    obtain ⟨row, _, _, hrow, -, hrest, -, -⟩ := updateTargets_cons h
    obtain ⟨p, hp, hk⟩ := hfresh rot mem_cons_self
    have hrenew : row.Renewed c fresh (row.rotated rot.secret.keyPrefix rot.secret.hash) :=
      .rotated row hp hk
    have hstep := Evolves.setKey (key_eq_some.mp hrow).1 hrenew
    exact hstep.trans (ih hrest fun r hr => hfresh r (mem_cons_of_mem rot hr))

theorem updateTargets_results : results = rotations.map (Rotation.result tenantID) := by
  induction rotations generalizing db results oldPrefixes with
  | nil =>
    rw [updateTargets] at h
    cases h
    rfl
  | cons rot rest ih =>
    obtain ⟨row, _, _, -, -, hrest, rfl, -⟩ := updateTargets_cons h
    rw [ih hrest, map_cons]

theorem updateTargets_keyed
    (hfresh : ∀ rot ∈ rotations, ∃ p ∈ fresh, ∀ q, c.compare rot.secret.hash q = decide (q = p))
    {rot : Rotation H} (hrot : rot ∈ rotations) {row : KeyRow H} (hrow : db'.keys.lookup rot.id = some row) :
    ∃ p ∈ fresh, row.Keyed c p := by
  induction rotations generalizing db results oldPrefixes with
  | nil => cases hrot
  | cons first rest ih =>
    obtain ⟨old, _, _, -, -, hrest, -, -⟩ := updateTargets_cons h
    have hfresh' := fun r hr => hfresh r (mem_cons_of_mem first hr)
    rcases mem_cons.mp hrot with rfl | hmem
    · obtain ⟨row₁, hrow₁, hre⟩ := (updateTargets_evolves hrest hfresh').keys rot.id row hrow
      rw [lookup_setKey_self] at hrow₁
      cases hrow₁
      rcases hre.secret with ⟨hhash, -, -⟩ | ⟨-, hkeyed⟩
      · obtain ⟨p, hp, hk⟩ := hfresh rot mem_cons_self
        exact ⟨p, hp, fun q => by rw [hhash]; exact hk q⟩
      · exact hkeyed
    · exact ih hrest hfresh' hmem

theorem updateTargets_spares {k : String} {row : KeyRow H} (hrow : db.keys.lookup k = some row)
    (hk : row.tenantID = tenantID → ∀ rot ∈ rotations, rot.id ≠ k) :
    db'.keys.lookup k = some row := by
  induction rotations generalizing db results oldPrefixes with
  | nil =>
    rw [updateTargets] at h
    cases h
    exact hrow
  | cons rot rest ih =>
    obtain ⟨old, _, _, hold, -, hrest, -, -⟩ := updateTargets_cons h
    obtain ⟨hlookup, hten⟩ := key_eq_some.mp hold
    have hne : k ≠ rot.id := by
      rintro rfl
      obtain rfl : old = row := some.inj (hlookup.symm.trans hrow)
      exact hk hten rot mem_cons_self rfl
    refine ih hrest ?_ fun htenant r hr => hk htenant r (mem_cons_of_mem rot hr)
    rw [lookup_setKey_ne _ hne, hrow]

omit h

/-- A new row with a drawn or supplied secret. -/
structure Inserted (c : Crypto H D) (ch : Choice) (secrets : List Bytes) (db db' : Database H)
    (id : String) (row : KeyRow H) : Prop where
  drawn : ch.keyID = some id
  absent : db.keys.lookup id = none
  tenant : row.tenantID ∈ db.tenants
  version : row.version = 1
  secret : ∃ p ∈ secrets, row.Keyed c p
  eq : db' = db.setKey id row

theorem insertAPIKey_ok {ch : Choice} {tenantID name : String} {role : Role} {keyPrefix : Bytes}
    {hash : H} {key : APIKey}
    (h : insertAPIKey ch tenantID name role keyPrefix hash db = .ok (db', key)) :
    ch.keyID = some key.id ∧ db.keys.lookup key.id = none ∧ tenantID ∈ db.tenants ∧
      db' = db.setKey key.id ⟨tenantID, name, keyPrefix, hash, role, ch.now / second, none, 1⟩ := by
  rw [insertAPIKey] at h
  split at h
  · cases h
  next id hid =>
    split at h
    · cases h
    next hcond =>
      cases h
      simp only [Bool.or_eq_true, Bool.not_eq_true', hasTenant, decide_eq_false_iff_not,
        isSome_iff_ne_none, not_or, not_not] at hcond
      exact ⟨hid, hcond.2, hcond.1.2, rfl⟩

end

/-! ## The steps of a call -/

section
variable (c : Crypto H D) (ch : Choice)

inductive RotateStep (actor : Option Principal) (tenantID id : String) (s : SQLiteStore H D) :
    RotatePc H → SQLiteStore H D → RotatePc H → Prop where
  | failed (pc : RotatePc H) (err : Err) :
      RotateStep actor tenantID id s pc s (.done (.error err))
  | read (row : KeyRow H) : RotateStep actor tenantID id s .read s (.tx row)
  | commit (read : KeyRow H) (d : Draw) (secret : Secret H) (db : Database H) (hd : d ∈ ch.draws)
      (hsecret : newSecret c d = .ok secret)
      (htx : rotateAPIKeyTx actor tenantID id read secret s.db = .ok db) (oldPrefix : Bytes)
      (key : APIKey) :
      RotateStep actor tenantID id s (.tx read) { s with db := db }
        (.flush (⟨key, secret.plaintext⟩, oldPrefix))
  | flush (result : NewAPIKeyResult × Bytes) :
      RotateStep actor tenantID id s (.flush result) s.flush (.done (.ok result))
  | done (result : Except Err (NewAPIKeyResult × Bytes)) :
      RotateStep actor tenantID id s (.done result) s (.done result)

def BulkPc.result : BulkPc H → Option (List NewAPIKeyResult × List Bytes)
  | .flush result | .done (.ok result) => some result
  | _ => none

inductive BulkStep (actor : Option Principal) (tenantID : String) (exclude : List String)
    (s : SQLiteStore H D) : BulkPc H → SQLiteStore H D → BulkPc H → Prop where
  | failed (pc : BulkPc H) (err : Err) (hpc : pc.result = none) :
      BulkStep actor tenantID exclude s pc s (.done (.error err))
  | tenant : BulkStep actor tenantID exclude s .tenant s .read
  | empty (h : s.db.tenantKeys tenantID exclude = []) :
      BulkStep actor tenantID exclude s .read s (.done (.ok ([], [])))
  | read : BulkStep actor tenantID exclude s .read s (.tx (s.db.tenantKeys tenantID exclude))
  | commit (existing : List (Sigma fun _ : String => KeyRow H)) (rotations : List (Rotation H))
      (db : Database H) (result : List NewAPIKeyResult × List Bytes)
      (hnew : newSecrets c ch.failure existing ch.draws = .ok rotations)
      (htx : updateTargets tenantID s.db rotations = .ok (db, result)) :
      BulkStep actor tenantID exclude s (.tx existing) { s with db := db } (.flush result)
  | flush (result : List NewAPIKeyResult × List Bytes) :
      BulkStep actor tenantID exclude s (.flush result) s.flush (.done (.ok result))
  | done (result : Except Err (List NewAPIKeyResult × List Bytes)) :
      BulkStep actor tenantID exclude s (.done result) s (.done result)

inductive WriteStep {R : Type} (tx : Database H → Except Err (Database H × R))
    (s : SQLiteStore H D) : WritePc R → SQLiteStore H D → WritePc R → Prop where
  | failed (pc : WritePc R) (err : Err) : WriteStep tx s pc s (.done (.error err))
  | commit (db : Database H) (result : R) (htx : tx s.db = .ok (db, result)) :
      WriteStep tx s .tx { s with db := db } (.flush result)
  | flush (result : R) : WriteStep tx s (.flush result) s.flush (.done (.ok result))
  | done (result : Except Err R) : WriteStep tx s (.done result) s (.done result)

inductive CreateStep {R : Type} (insert : Database H → Except Err (Database H × R))
    (s : SQLiteStore H D) : CreatePc R → SQLiteStore H D → CreatePc R → Prop where
  | failed (pc : CreatePc R) (err : Err) : CreateStep insert s pc s (.done (.error err))
  | tenant : CreateStep insert s .tenant s .insert
  | insert (db : Database H) (result : R) (hins : insert s.db = .ok (db, result)) :
      CreateStep insert s .insert { s with db := db } (.done (.ok result))
  | done (result : Except Err R) : CreateStep insert s (.done result) s (.done result)

variable {c ch}

theorem rotateStep_spec (actor : Option Principal) (tenantID id : String) (s : SQLiteStore H D)
    (pc : RotatePc H) :
    RotateStep c ch actor tenantID id s pc (rotateStep c ch actor tenantID id s pc).1
      (rotateStep c ch actor tenantID id s pc).2 := by
  cases pc with
  | read =>
    rw [rotateStep]
    split
    · exact .failed _ _
    · split
      · exact .failed _ _
      · exact .read _
  | tx read =>
    rw [rotateStep]
    split
    · exact .failed _ _
    next d _ hdraws =>
      split
      · exact .failed _ _
      next secret hsecret =>
        split
        · exact .failed _ _
        · split
          · exact .failed _ _
          next db htx => exact .commit read d secret db (by simp [hdraws]) hsecret htx _ _
  | flush result => exact .flush result
  | done result => exact .done result

theorem bulkRotateStep_spec (actor : Option Principal) (tenantID : String) (exclude : List String)
    (s : SQLiteStore H D) (pc : BulkPc H) :
    BulkStep c ch actor tenantID exclude s pc (bulkRotateStep c ch actor tenantID exclude s pc).1
      (bulkRotateStep c ch actor tenantID exclude s pc).2 := by
  cases pc with
  | tenant =>
    rw [bulkRotateStep]
    split
    · exact .failed _ _ rfl
    · split
      · exact .tenant
      · exact .failed _ _ rfl
  | read =>
    rw [bulkRotateStep]
    split
    · exact .failed _ _ rfl
    · split
      next hempty => exact .empty hempty
      · exact .read
  | tx existing =>
    rw [bulkRotateStep]
    split
    · exact .failed _ _ rfl
    next rotations hnew =>
      split
      · exact .failed _ _ rfl
      · split
        · exact .failed _ _ rfl
        next db result htx =>
          rw [bulkRotateTx] at htx
          split at htx
          · cases htx
          · exact .commit existing rotations db result hnew htx
  | flush result => exact .flush result
  | done result => exact .done result

variable {R : Type} {db db' : Database H} {role : Role} {id tenantID : String}
variable {s s' : SQLiteStore H D} {actor : Option Principal}

theorem writeStep_spec (tx : Database H → Except Err (Database H × R)) (s : SQLiteStore H D)
    (pc : WritePc R) : WriteStep tx s pc (writeStep ch tx s pc).1 (writeStep ch tx s pc).2 := by
  cases pc with
  | tx =>
    rw [writeStep]
    split
    · exact .failed _ _
    · split
      · exact .failed _ _
      next db result htx => exact .commit db result htx
  | flush result => exact .flush result
  | done result => exact .done result

theorem createStep_spec (tenantID : String) (insert : Database H → Except Err (Database H × R))
    (s : SQLiteStore H D) (pc : CreatePc R) :
    CreateStep insert s pc (createStep ch tenantID insert s pc).1
      (createStep ch tenantID insert s pc).2 := by
  cases pc with
  | tenant =>
    rw [createStep]
    split
    · exact .failed _ _
    · split
      · exact .tenant
      · exact .failed _ _
  | insert =>
    rw [createStep]
    split
    · exact .failed _ _
    next db result hins => exact .insert db result hins
  | done result => exact .done result

/-! ## The rows after a step -/

theorem createAPIKeyInsert_ok {tenantID name : String} {result : NewAPIKeyResult}
    (h : createAPIKeyInsert c ch tenantID name role db = .ok (db', result)) :
    ∃ row, Inserted c ch (ch.draws.map plaintext) db db' result.key.id row ∧
      row.tenantID = tenantID := by
  rw [createAPIKeyInsert] at h
  split at h
  · cases h
  next d _ hdraws =>
    split at h
    · cases h
    next secret hsecret =>
      split at h
      · cases h
      next key hins =>
        cases h
        obtain ⟨hid, hnone, hten, hdb⟩ := insertAPIKey_ok hins
        exact ⟨⟨tenantID, _, _, _, _, _, _, _⟩, ⟨hid, hnone, hten, rfl, ⟨d.plaintext,
          by simp [hdraws], (newSecret_keyed hsecret).2.2⟩, hdb⟩, rfl⟩

theorem createAPIKeyWithPlaintextInsert_ok {tenantID name : String} {p : Bytes} {key : APIKey}
    (h : createAPIKeyWithPlaintextInsert c ch tenantID name role p db = .ok (db', key)) :
    ∃ row, Inserted c ch [p] db db' key.id row ∧ row.tenantID = tenantID ∧ row.Keyed c p ∧
      row.keyPrefix = p.take apiKeyPrefixLen := by
  rw [createAPIKeyWithPlaintextInsert] at h
  split at h
  · cases h
  next hash hgen =>
    obtain ⟨hid, hnone, hten, hdb⟩ := insertAPIKey_ok h
    have hkeyed := c.compare_generate hgen
    exact ⟨⟨tenantID, _, _, _, _, _, _, _⟩, ⟨hid, hnone, hten, rfl,
      ⟨p, mem_singleton_self p, hkeyed⟩, hdb⟩, rfl, hkeyed, rfl⟩

theorem Inserted.mono {secrets secrets' : List Bytes} {row : KeyRow H}
    (h : Inserted c ch secrets db db' id row) (hsub : secrets ⊆ secrets') :
    Inserted c ch secrets' db db' id row :=
  let ⟨p, hp, hk⟩ := h.secret
  { h with secret := ⟨p, hsub hp, hk⟩ }

def Task.inserting : Task H → Option Bytes
  | .createPreset _ _ _ p .insert => some p
  | _ => none

def Task.insertsInto : Task H → Option String
  | .create tenantID _ _ .insert | .createPreset tenantID _ _ _ .insert => some tenantID
  | _ => none

theorem CreateStep.evolves_or_inserted {fresh secrets : List Bytes} {into : Option String}
    {insert : Database H → Except Err (Database H × R)} {pc pc' : CreatePc R}
    (h : CreateStep insert s pc s' pc')
    (hinsert : pc = .insert → ∀ db result, insert s.db = .ok (db, result) →
      ∃ id row, Inserted c ch secrets s.db db id row ∧ into = some row.tenantID) :
    s.db.Evolves c fresh s'.db ∨
      ∃ id row, Inserted c ch secrets s.db s'.db id row ∧ into = some row.tenantID := by
  cases h with
  | insert db result hins => exact .inr (hinsert rfl db result hins)
  | failed | tenant | done => exact .inl (.refl c fresh s.db)

theorem WriteStep.evolves {fresh : List Bytes} {tx : Database H → Except Err (Database H × R)}
    {pc pc' : WritePc R} (h : WriteStep tx s pc s' pc')
    (htx : ∀ db result, tx s.db = .ok (db, result) → s.db.Evolves c fresh db) :
    s.db.Evolves c fresh s'.db := by
  cases h with
  | commit db result hok => exact htx db result hok
  | failed | flush | done => exact .refl c fresh s.db

theorem RotateStep.evolves {pc pc' : RotatePc H}
    (h : RotateStep c ch actor tenantID id s pc s' pc') :
    s.db.Evolves c (ch.draws.map plaintext) s'.db := by
  cases h with
  | commit read d secret db hd hsecret htx =>
    obtain ⟨row, hrow, rfl⟩ := rotateAPIKeyTx_ok htx
    exact .setKey hrow (.rotated row (mem_map_of_mem hd) (newSecret_keyed hsecret).2.2)
  | failed | read | flush | done => exact .refl c _ s.db

theorem newSecrets_fresh {failure : Err} {existing : List (Sigma fun _ : String => KeyRow H)}
    {draws : List Draw} {rotations : List (Rotation H)}
    (h : newSecrets c failure existing draws = .ok rotations) :
    ∀ rot ∈ rotations, ∃ p ∈ draws.map plaintext,
      ∀ q, c.compare rot.secret.hash q = decide (q = p) := by
  intro rot hrot
  obtain ⟨d, hd, -, hk⟩ := (newSecrets_ok h).2 rot hrot
  exact ⟨d.plaintext, mem_map_of_mem hd, hk⟩

theorem BulkStep.evolves {exclude : List String} {pc pc' : BulkPc H}
    (h : BulkStep c ch actor tenantID exclude s pc s' pc') :
    s.db.Evolves c (ch.draws.map plaintext) s'.db := by
  cases h with
  | commit existing rotations db result hnew htx =>
    exact updateTargets_evolves htx (newSecrets_fresh hnew)
  | failed | tenant | empty | read | flush | done => exact .refl c _ s.db

theorem deleteAPIKeyWrite_ok {result : Unit}
    (h : deleteAPIKeyWrite actor tenantID id db = .ok (db', result)) :
    db' = { db with keys := db.keys.erase id } := by
  rw [deleteAPIKeyWrite] at h
  split at h
  · cases h
  next htx =>
    rw [deleteAPIKeyTx] at htx
    split at htx
    · cases htx
    · split at htx
      · cases htx
      · cases htx
        cases h
        rfl

theorem deleteTenantWrite_ok {result : Unit} (h : deleteTenantWrite id db = .ok (db', result)) :
    db' = db.deleteTenant id := by
  rw [deleteTenantWrite] at h
  split at h
  · cases h
    rfl
  · cases h

theorem updateAPIKeyRoleWrite_ok {result : Role × Role}
    (h : updateAPIKeyRoleWrite actor tenantID id role db = .ok (db', result)) :
    ∃ row, db.keys.lookup id = some row ∧ db' = db.setKey id { row with role := role } := by
  rw [updateAPIKeyRoleWrite] at h
  split at h
  · cases h
  next htx =>
    rw [updateAPIKeyRoleTx] at htx
    split at htx
    · cases htx
    next row hrow =>
      split at htx
      · cases htx
      · cases htx
        cases h
        exact ⟨row, (key_eq_some.mp hrow).1, rfl⟩

end

section
variable [DecidableEq D] (c : Crypto H D) (ch : Choice)

inductive ResolveStep (p : Bytes) (s : SQLiteStore H D) :
    ResolvePc → SQLiteStore H D → ResolvePc → Prop where
  | failed (pc : ResolvePc) (herr : ch.dbErr = true) :
      ResolveStep p s pc s (.done (.error ch.failure))
  | hit (e : AuthCacheEntry) (he : s.cache.entries.lookup (c.hashKey p) = some e)
      (hexp : ch.now ≤ e.expiry) :
      ResolveStep p s .get { s with cache := (s.cache.get c ch.now p).1 } (.check e.principal)
  | unknown : ResolveStep p s .get { s with cache := (s.cache.get c ch.now p).1 } .negative
  | stale (cached : Principal)
      (h : ∀ row, s.db.authority cached.keyID = some row →
        row.tenantID = cached.tenantID → row.version ≠ cached.credentialVersion) :
      ResolveStep p s (.check cached) s .drop
  | proved (cached : Principal) (row : KeyRow H)
      (hrow : s.db.keys.lookup cached.keyID = some row) (hten : row.tenantID = cached.tenantID)
      (hver : row.version = cached.credentialVersion) :
      ResolveStep p s (.check cached) s (.done (.ok { cached with role := row.role }))
  | dropped : ResolveStep p s .drop s.flush (.done (.error .invalidKey))
  | refused (h : s.cache.isNegative c ch.now p = true) :
      ResolveStep p s .negative s (.done (.error .invalidKey))
  | unsure : ResolveStep p s .negative s .select
  | missing (h : ∀ e ∈ s.db.candidates ch.sh (p.take apiKeyPrefixLen),
        ¬ c.compare e.2.hash p = true) :
      ResolveStep p s .select s .miss
  | found (id : String) (row : KeyRow H) (hrow : s.db.keys.lookup id = some row)
      (hcmp : c.compare row.hash p = true) (pc : ResolvePc)
      (hpc : pc = .bump ⟨row.tenantID, id, row.role, row.version⟩ ch.now ∨
        pc = .set ⟨row.tenantID, id, row.role, row.version⟩) :
      ResolveStep p s .select s pc
  | unbumped (P : Principal) (now : Int) : ResolveStep p s (.bump P now) s (.set P)
  | bumped (P : Principal) (now : Int) :
      ResolveStep p s (.bump P now) { s with db := s.db.touch P.keyID (now / second) } (.set P)
  | stored (P : Principal) :
      ResolveStep p s (.set P) { s with cache := s.cache.set c ch.sh ch.now p P } (.done (.ok P))
  | missed :
      ResolveStep p s .miss { s with cache := s.cache.setNegative c ch.sh ch.now p }
        (.done (.error .invalidKey))
  | done (result : Except Err Principal) : ResolveStep p s (.done result) s (.done result)

variable {c ch}

variable {d : D} {p : Bytes} {s s' : SQLiteStore H D}

theorem lookup_evictOne {α : Type} {sh : Shuffle} {expired : α → Bool} {m : AList fun _ : D => α}
    {a : α} (h : (evictOne sh expired m).lookup d = some a) : m.lookup d = some a := by
  rw [evictOne] at h
  split at h
  · exact lookup_of_erase h
  · split at h
    · exact lookup_of_erase h
    · exact h

theorem lookup_makeRoom {α : Type} {sh : Shuffle} {expired : α → Bool} {maxSize : Int}
    {m : AList fun _ : D => α} {k d : D} {a : α}
    (h : (makeRoom sh expired maxSize m k).lookup d = some a) : m.lookup d = some a := by
  rw [makeRoom] at h
  split at h
  · exact lookup_evictOne h
  · exact h

theorem AuthCache.get_eq_some {cache : AuthCache D} {now : Int} {P : Principal} :
    (cache.get c now p).2 = some P ↔ p ≠ [] ∧
      ∃ e, cache.entries.lookup (c.hashKey p) = some e ∧ now ≤ e.expiry ∧ e.principal = P := by
  rw [AuthCache.get]
  split
  next h => simp [h]
  next h =>
    split
    next hnone => simp [hnone]
    next e he =>
      split
      next hlt => simp [he, hlt]
      next hlt => simp [h, he, not_lt.mp hlt]

theorem resolveStep_spec (p : Bytes) (s : SQLiteStore H D) (pc : ResolvePc) :
    ResolveStep c ch p s pc (resolveStep c ch p s pc).1 (resolveStep c ch p s pc).2 := by
  cases pc with
  | get =>
    rw [resolveStep]
    split
    next cached hget =>
      obtain ⟨-, e, he, hexp, rfl⟩ := get_eq_some.mp hget
      exact .hit e he hexp
    · exact .unknown
  | check cached =>
    rw [resolveStep]
    split
    next herr => exact .failed _ herr
    · split
      next hnone => exact .stale cached fun row hrow => by simp [hnone] at hrow
      next row hrow =>
        split
        next hdiff =>
          refine .stale cached fun row' hrow' hten => ?_
          obtain rfl : row = row' := some.inj (hrow.symm.trans hrow')
          simpa [hten] using hdiff
        next hsame =>
          simp only [Bool.or_eq_true, decide_eq_true_eq, not_or, not_not] at hsame
          exact .proved cached row (authority_eq_some.mp hrow).1 hsame.1 hsame.2
  | drop => exact .dropped
  | negative =>
    rw [resolveStep]
    split
    next h => exact .refused h
    · exact .unsure
  | select =>
    rw [resolveStep]
    split
    next herr => exact .failed _ herr
    · split
      next hnone => exact .missing (find?_eq_none.mp hnone)
      next e he =>
        have hmem := mem_candidates.mp (mem_of_find?_eq_some he)
        have hcmp := find?_some he
        refine .found e.1 e.2 hmem.1 hcmp _ ?_
        split
        · exact .inl rfl
        · exact .inr rfl
  | bump P now =>
    rw [resolveStep]
    split
    · exact .unbumped P now
    · exact .bumped P now
  | set P => exact .stored P
  | miss => exact .missed
  | done result => exact .done result

theorem ResolveStep.evolves {fresh : List Bytes} {pc pc' : ResolvePc}
    (h : ResolveStep c ch p s pc s' pc') : s.db.Evolves c fresh s'.db := by
  cases h with
  | bumped P now => exact .touch s.db _ _
  | failed | hit | unknown | stale | proved | dropped | refused | unsure | missing | found
  | unbumped | stored | missed | done => exact .refl c fresh s.db

/-- A step renews keys and drops some, or inserts one. -/
theorem Task.step_db (c : Crypto H D) (ch : Choice) (t : Task H) (s : SQLiteStore H D) :
    s.db.Evolves c (ch.draws.map plaintext) (t.step c ch s).1.db ∨
      ∃ id row, Inserted c ch (ch.draws.map plaintext ++ t.inserting.toList) s.db
        (t.step c ch s).1.db id row ∧ t.insertsInto = some row.tenantID := by
  cases t with
  | resolve p pc => exact .inl (resolveStep_spec p s pc).evolves
  | rotate actor tenantID id pc => exact .inl (rotateStep_spec actor tenantID id s pc).evolves
  | bulkRotate actor tenantID exclude pc =>
    exact .inl (bulkRotateStep_spec actor tenantID exclude s pc).evolves
  | deleteKey actor tenantID id pc =>
    refine .inl ((writeStep_spec _ s pc).evolves fun db _ hok => ?_)
    rw [deleteAPIKeyWrite_ok hok]
    exact .erase s.db id
  | deleteTenant id pc =>
    refine .inl ((writeStep_spec _ s pc).evolves fun db _ hok => ?_)
    rw [deleteTenantWrite_ok hok]
    exact .deleteTenant s.db id
  | updateRole actor tenantID id role pc =>
    refine .inl ((writeStep_spec _ s pc).evolves fun db _ hok => ?_)
    obtain ⟨row, hrow, rfl⟩ := updateAPIKeyRoleWrite_ok hok
    exact .setKey hrow ⟨rfl, .inl ⟨rfl, rfl, rfl⟩⟩
  | create tenantID name role pc =>
    refine (createStep_spec tenantID _ s pc).evolves_or_inserted fun hpc db result hok => ?_
    obtain ⟨row, hins, rfl⟩ := createAPIKeyInsert_ok hok
    subst hpc
    exact ⟨_, row, hins.mono (by simp), rfl⟩
  | createPreset tenantID name role p pc =>
    refine (createStep_spec tenantID _ s pc).evolves_or_inserted fun hpc db key hok => ?_
    obtain ⟨row, hins, rfl, -⟩ := createAPIKeyWithPlaintextInsert_ok hok
    subst hpc
    exact ⟨_, row, hins.mono (by simp [Task.inserting]), rfl⟩

/-! ## The cache after a step -/

/-- What a step of a call does to the cache. -/
inductive CacheStep (c : Crypto H D) (ch : Choice) (cache : AuthCache D) :
    Task H → AuthCache D → Prop where
  | kept (t : Task H) : CacheStep c ch cache t cache
  | flushed (t : Task H) : CacheStep c ch cache t cache.invalidate
  | got (p : Bytes) : CacheStep c ch cache (.resolve p .get) (cache.get c ch.now p).1
  | stored (p : Bytes) (P : Principal) :
      CacheStep c ch cache (.resolve p (.set P)) (cache.set c ch.sh ch.now p P)
  | missed (p : Bytes) :
      CacheStep c ch cache (.resolve p .miss) (cache.setNegative c ch.sh ch.now p)

theorem ResolveStep.cache {pc pc' : ResolvePc} (h : ResolveStep c ch p s pc s' pc') :
    CacheStep c ch s.cache (.resolve p pc : Task H) s'.cache := by
  cases h with
  | hit | unknown => exact .got p
  | stored P => exact .stored p P
  | missed => exact .missed p
  | dropped => exact .flushed _
  | failed | stale | proved | refused | unsure | missing | found | unbumped | bumped | done =>
    exact .kept _

theorem RotateStep.cache {actor : Option Principal} {tenantID id : String} {pc pc' : RotatePc H}
    (h : RotateStep c ch actor tenantID id s pc s' pc') (t : Task H) :
    CacheStep c ch s.cache t s'.cache := by
  cases h with
  | flush => exact .flushed t
  | failed | read | commit | done => exact .kept t

theorem BulkStep.cache {actor : Option Principal} {tenantID : String} {exclude : List String}
    {pc pc' : BulkPc H} (h : BulkStep c ch actor tenantID exclude s pc s' pc') (t : Task H) :
    CacheStep c ch s.cache t s'.cache := by
  cases h with
  | flush => exact .flushed t
  | failed | tenant | empty | read | commit | done => exact .kept t

theorem WriteStep.cache {R : Type} {tx : Database H → Except Err (Database H × R)}
    {pc pc' : WritePc R} (h : WriteStep tx s pc s' pc') (t : Task H) :
    CacheStep c ch s.cache t s'.cache := by
  cases h with
  | flush => exact .flushed t
  | failed | commit | done => exact .kept t

theorem CreateStep.cache {R : Type} {insert : Database H → Except Err (Database H × R)}
    {pc pc' : CreatePc R} (h : CreateStep insert s pc s' pc') (t : Task H) :
    CacheStep c ch s.cache t s'.cache := by
  cases h with
  | failed | tenant | insert | done => exact .kept t

theorem Task.step_cache (c : Crypto H D) (ch : Choice) (t : Task H) (s : SQLiteStore H D) :
    CacheStep c ch s.cache t (t.step c ch s).1.cache := by
  cases t with
  | resolve p pc => exact (resolveStep_spec p s pc).cache
  | rotate actor tenantID id pc => exact (rotateStep_spec actor tenantID id s pc).cache _
  | bulkRotate actor tenantID exclude pc =>
    exact (bulkRotateStep_spec actor tenantID exclude s pc).cache _
  | deleteKey | deleteTenant | updateRole => exact (writeStep_spec _ s _).cache _
  | create | createPreset => exact (createStep_spec _ _ s _).cache _

/-- An entry of the cache was there, or the step is the one that stores it. -/
theorem CacheStep.entries {cache cache' : AuthCache D} {t : Task H}
    (h : CacheStep c ch cache t cache') {e : AuthCacheEntry}
    (he : cache'.entries.lookup d = some e) :
    cache.entries.lookup d = some e ∨
      ∃ p P, t = .resolve p (.set P) ∧ d = c.hashKey p ∧ e = ⟨P, ch.now + cache.ttl⟩ := by
  cases h with
  | kept => exact .inl he
  | flushed => simp [invalidate] at he
  | got p =>
    rw [AuthCache.get] at he
    split at he
    · exact .inl he
    · split at he
      · exact .inl he
      · split at he
        · exact .inl (lookup_of_erase he)
        · exact .inl he
  | stored p P =>
    rw [AuthCache.set] at he
    split at he
    · exact .inl he
    · rcases lookup_of_insert he with ⟨rfl, rfl⟩ | ⟨-, he⟩
      · exact .inr ⟨p, P, rfl, rfl, rfl⟩
      · exact .inl (lookup_makeRoom he)
  | missed p =>
    rw [setNegative] at he
    split at he <;> exact .inl he

/-- A remembered failure was there, or the step is the one that stores it. -/
theorem CacheStep.negatives {cache cache' : AuthCache D} {t : Task H}
    (h : CacheStep c ch cache t cache') {exp : Int} (he : cache'.negatives.lookup d = some exp) :
    cache.negatives.lookup d = some exp ∨ ∃ p, t = .resolve p .miss ∧ d = c.hashKey p := by
  cases h with
  | kept => exact .inl he
  | flushed => simp [invalidate] at he
  | got p =>
    rw [AuthCache.get] at he
    split at he
    · exact .inl he
    · split at he
      · exact .inl he
      · split at he <;> exact .inl he
  | stored p P =>
    rw [AuthCache.set] at he
    split at he <;> exact .inl he
  | missed p =>
    rw [setNegative] at he
    split at he
    · exact .inl he
    · rcases lookup_of_insert he with ⟨rfl, -⟩ | ⟨-, he⟩
      · exact .inr ⟨p, rfl, rfl⟩
      · exact .inl (lookup_makeRoom he)

end

/-! ## What the calls have read -/

/-- What a call has checked or read, as far as it says something about its arguments. -/
def Task.Informed : Task H → Prop
  | .bulkRotate _ tenantID exclude (.tx existing) =>
    (existing.map Sigma.fst).Nodup ∧ ∀ e ∈ existing, e.2.tenantID = tenantID ∧
      e.1 ∉ exclude.filter fun kid => kid ≠ ""
  | .createPreset _ _ _ p .tenant | .createPreset _ _ _ p .insert => wellFormed p = true
  | _ => True

theorem tenantKeys_spec (db : Database H) (tenantID : String) (exclude : List String) :
    ((db.tenantKeys tenantID exclude).map Sigma.fst).Nodup ∧
      ∀ e, e ∈ db.tenantKeys tenantID exclude ↔ db.keys.lookup e.1 = some e.2 ∧
        e.2.tenantID = tenantID ∧ e.1 ∉ exclude.filter fun kid => kid ≠ "" := by
  constructor
  · refine (((perm_insertionSort _ _).map Sigma.fst).nodup_iff).mpr ?_
    exact (filter_sublist.map Sigma.fst).nodup db.keys.nodupKeys
  · intro e
    rw [tenantKeys, mem_insertionSort, mem_filter, Bool.and_eq_true,
      decide_eq_true_eq, decide_eq_true_eq, ← mem_lookup_iff, mem_def]

theorem Task.start_informed (call : Call) : (Task.start call : Task H).Informed := by
  cases call with
  | createAPIKeyWithPlaintext tenantID name role p =>
    rw [Task.start]
    split
    · trivial
    next hvalid =>
      split
      · rw [validatePresetAPIKey] at hvalid
        split at hvalid
        · cases hvalid
        next hform => simpa [Task.Informed] using hform
      · trivial
  | resolve | rotateAPIKey | bulkRotateTenantKeys | deleteAPIKey | deleteTenant | updateAPIKeyRole
  | createAPIKey => trivial

section
variable {c : Crypto H D}

theorem BulkStep.informed {ch : Choice} {actor : Option Principal} {tenantID : String}
    {exclude : List String} {s s' : SQLiteStore H D} {pc pc' : BulkPc H}
    (h : BulkStep c ch actor tenantID exclude s pc s' pc') :
    (Task.bulkRotate actor tenantID exclude pc').Informed := by
  cases h with
  | read =>
    obtain ⟨hnodup, hmem⟩ := tenantKeys_spec s.db tenantID exclude
    exact ⟨hnodup, fun e he => ((hmem e).mp he).2⟩
  | failed | tenant | empty | commit | flush | done => trivial

theorem CreateStep.informed {tenantID name : String} {role : Role} {p : Bytes}
    {insert : Database H → Except Err (Database H × APIKey)} {s s' : SQLiteStore H D}
    {pc pc' : CreatePc APIKey} (h : CreateStep insert s pc s' pc')
    (hpc : (Task.createPreset tenantID name role p pc : Task H).Informed) :
    (Task.createPreset tenantID name role p pc' : Task H).Informed := by
  cases h with
  | tenant => exact hpc
  | failed | insert | done => trivial

variable [DecidableEq D]

variable {s : SQLiteStore H D}

theorem Task.step_informed {ch : Choice} {t : Task H} (h : t.Informed) :
    (t.step c ch s).2.Informed := by
  cases t with
  | resolve | rotate | deleteKey | deleteTenant | updateRole | create => trivial
  | bulkRotate actor tenantID exclude pc =>
    exact (bulkRotateStep_spec actor tenantID exclude s pc).informed
  | createPreset tenantID name role p pc => exact (createStep_spec tenantID _ s pc).informed h

theorem run_informed (o : Opening c) (acts : List (Act Call Choice)) :
    System.Holds (fun _ => True) (fun _ _ => Task.Informed) ((tenancy c).run o.pool acts) := by
  refine System.run_induction (P := System.Holds (fun _ => True) fun _ _ => Task.Informed)
    (fun w a h => h.act (fun call _ => Task.start_informed call) (fun i ch t _ ht => ?_)
      fun i ch t j u _ _ hu _ => h.2 j u hu) ⟨trivial, fun i t ht => ?_⟩ acts
  · refine ⟨trivial, ?_⟩
    change (Task.next c ch w.shared t).2.Informed
    rw [Task.next]
    split
    · exact Task.step_informed (h.2 i t ht)
    · exact h.2 i t ht
  · simp [Opening.pool] at ht

end

end MockAgents.Tenancy
