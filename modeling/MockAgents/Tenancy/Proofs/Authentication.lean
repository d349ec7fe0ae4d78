import MockAgents.Tenancy.Proofs.Revocation
/-!
# Authentication

`CreateAPIKeyWithPlaintext` leaves the cache as it is, so what earlier calls left there
about its plaintext decides whether the key works.  When nothing about the plaintext is
left, neither in the cache nor in a slow `Resolve`, and no other key has it, every later
`Resolve` returns the principal of the key.
-/

namespace MockAgents.Tenancy

open Lib Lib.Maps Database List System

variable {H D : Type} {c : Crypto H D}

/-! ## What the calls leave of a key -/

/-- The call may still rotate or delete the key `k` of tenant `T`. -/
def Task.threatens (k T : String) : Task H → Bool
  | .rotate _ _ id .read | .rotate _ _ id (.tx _) => decide (id = k)
  | .bulkRotate _ tenantID exclude .tenant | .bulkRotate _ tenantID exclude .read
  | .bulkRotate _ tenantID exclude (.tx _) =>
    decide (tenantID = T) && decide (k ∉ exclude.filter fun kid => kid ≠ "")
  | .deleteKey _ _ id .tx => decide (id = k)
  | .deleteTenant id .tx => decide (id = T)
  | _ => false

/-- The columns that decide whether the key works. -/
structure KeyRow.SameSecret (row row' : KeyRow H) : Prop where
  tenantID : row'.tenantID = row.tenantID
  hash : row'.hash = row.hash
  version : row'.version = row.version
  keyPrefix : row'.keyPrefix = row.keyPrefix

theorem KeyRow.SameSecret.refl (row : KeyRow H) : row.SameSecret row := ⟨rfl, rfl, rfl, rfl⟩

namespace Database

def Spares (k : String) (db db' : Database H) : Prop :=
  ∀ row, db.keys.lookup k = some row →
    ∃ row', db'.keys.lookup k = some row' ∧ row.SameSecret row'

theorem Spares.refl (k : String) (db : Database H) : db.Spares k db :=
  fun row h => ⟨row, h, .refl row⟩
variable {db : Database H} {id : String}

theorem Spares.setKey {row row' : KeyRow H}
    (hrow : db.keys.lookup id = some row) (h : row.SameSecret row') (k : String) :
    db.Spares k (db.setKey id row') := by
  intro old hold
  by_cases heq : k = id
  · subst heq
    obtain rfl : row = old := Option.some.inj (hrow.symm.trans hold)
    exact ⟨row', lookup_setKey_self db k row', h⟩
  · exact ⟨old, by rw [lookup_setKey_ne row' heq, hold], .refl old⟩

theorem Spares.setKey_ne {k : String} (row : KeyRow H) (h : k ≠ id) :
    db.Spares k (db.setKey id row) :=
  fun old hold => ⟨old, by rw [lookup_setKey_ne row h, hold], .refl old⟩

theorem Spares.touch (k : String) (db : Database H) (id : String) (lastUsed : Int) :
    db.Spares k (db.touch id lastUsed) := by
  rw [Database.touch]
  split
  · exact .refl k db
  next row hrow =>
    refine .setKey hrow ?_ k
    exact ⟨rfl, rfl, rfl, rfl⟩

end Database

/-! ## A key that no call threatens -/

variable {k T tenantID : String} {s s' : SQLiteStore H D} {actor : Option Principal} {ch : Choice}
variable {R : Type}
variable {id : String} {pc pc' : WritePc R} {exclude : List String}
variable {tx insert : Database H → Except Err (Database H × R)}

theorem RotateStep.spares {pc pc' : RotatePc H} (h : RotateStep c ch actor tenantID id s pc s' pc')
    (hpc : (Task.rotate actor tenantID id pc).threatens k T = false) : s.db.Spares k s'.db := by
  cases h with
  | commit read d secret db hd hsecret htx =>
    obtain ⟨row, -, rfl⟩ := rotateAPIKeyTx_ok htx
    exact .setKey_ne _ (Ne.symm (of_decide_eq_false hpc))
  | failed | read | flush | done => exact .refl k s.db

theorem BulkStep.spares {pc pc' : BulkPc H}
    (h : BulkStep c ch actor tenantID exclude s pc s' pc') {row : KeyRow H}
    (hrow : s.db.keys.lookup k = some row)
    (hpc : (Task.bulkRotate actor tenantID exclude pc).threatens k row.tenantID = false)
    (hinf : (Task.bulkRotate actor tenantID exclude pc).Informed) :
    s'.db.keys.lookup k = some row := by
  cases h with
  | commit existing rotations db result hnew htx =>
    refine updateTargets_spares htx hrow fun hten rot hrot heq => ?_
    have hexcluded : k ∈ exclude.filter fun kid => kid ≠ "" := by
      simpa [Task.threatens, hten] using hpc
    have hmem : ⟨rot.id, rot.read⟩ ∈ existing := by
      rw [← (newSecrets_ok hnew).1]
      exact mem_map_of_mem hrot
    exact (hinf.2 _ hmem).2 (heq ▸ hexcluded)
  | failed | tenant | empty | read | flush | done => exact hrow

theorem WriteStep.spares (h : WriteStep tx s pc s' pc')
    (htx : pc = .tx → ∀ db result, tx s.db = .ok (db, result) → s.db.Spares k db) :
    s.db.Spares k s'.db := by
  cases h with
  | commit db result hok => exact htx rfl db result hok
  | failed | flush | done => exact .refl k s.db

theorem RotateStep.threatens {pc pc' : RotatePc H}
    (h : RotateStep c ch actor tenantID id s pc s' pc')
    (hpc : (Task.rotate actor tenantID id pc).threatens k T = false) :
    (Task.rotate actor tenantID id pc').threatens k T = false := by
  cases h with
  | read row => exact hpc
  | failed | commit | flush | done => rfl

theorem BulkStep.threatens {pc pc' : BulkPc H}
    (h : BulkStep c ch actor tenantID exclude s pc s' pc')
    (hpc : (Task.bulkRotate actor tenantID exclude pc).threatens k T = false) :
    (Task.bulkRotate actor tenantID exclude pc').threatens k T = false := by
  cases h with
  | tenant | read => exact hpc
  | failed | empty | commit | flush | done => rfl

theorem WriteStep.ne_tx (h : WriteStep tx s pc s' pc') : pc' ≠ .tx := by
  cases h with
  | failed | commit | flush | done => simp

theorem CreateStep.spares {pc pc' : CreatePc R} (h : CreateStep insert s pc s' pc')
    (hid : ch.keyID ≠ some k) (hinsert : ∀ db result, insert s.db = .ok (db, result) →
      ∃ id row, ch.keyID = some id ∧ db = s.db.setKey id row) : s.db.Spares k s'.db := by
  cases h with
  | insert db result hok =>
    obtain ⟨id, row, hdrawn, heq⟩ := hinsert db result hok
    exact heq ▸ .setKey_ne row fun hkid => hid (hkid ▸ hdrawn)
  | failed | tenant | done => exact .refl k s.db

theorem CreateStep.inserted {result : R} (h : CreateStep insert s .insert s' (.done (.ok result))) :
    ∃ db, insert s.db = .ok (db, result) ∧ s' = { s with db := db } := by
  cases h with
  | insert db _ hins => exact ⟨db, hins, rfl⟩

section
variable [DecidableEq D]

theorem ResolveStep.spares {p : Bytes} {pc pc' : ResolvePc}
    (h : ResolveStep c ch p s pc s' pc') (k : String) : s.db.Spares k s'.db := by
  cases h with
  | bumped P now => exact .touch k s.db _ _
  | failed | hit | unknown | stale | proved | dropped | refused | unsure | missing | found
  | unbumped | stored | missed | done => exact .refl k s.db

theorem Task.step_spares {t : Task H}
    (hinf : t.Informed) (hthreat : t.threatens k T = false) {row : KeyRow H}
    (hrow : s.db.keys.lookup k = some row) (hten : row.tenantID = T) (hid : ch.keyID ≠ some k) :
    ∃ row', (t.step c ch s).1.db.keys.lookup k = some row' ∧ row.SameSecret row' := by
  subst hten
  cases t with
  | resolve p pc => exact (resolveStep_spec p s pc).spares k row hrow
  | rotate actor tenantID id pc =>
    exact (rotateStep_spec actor tenantID id s pc).spares hthreat row hrow
  | bulkRotate actor tenantID exclude pc =>
    exact ⟨row, (bulkRotateStep_spec actor tenantID exclude s pc).spares hrow hthreat hinf, .refl row⟩
  | deleteKey actor tenantID id pc =>
    refine (writeStep_spec _ s pc).spares (fun hpc db _ hok => ?_) row hrow
    subst hpc
    obtain rfl := deleteAPIKeyWrite_ok hok
    have hne : k ≠ id := Ne.symm (of_decide_eq_false hthreat)
    exact fun old hold => ⟨old, by rw [AList.lookup_erase_ne hne, hold], .refl old⟩
  | deleteTenant id pc =>
    refine (writeStep_spec _ s pc).spares (fun hpc db _ hok => ?_) row hrow
    subst hpc
    obtain rfl := deleteTenantWrite_ok hok
    have hne : row.tenantID ≠ id := Ne.symm (of_decide_eq_false hthreat)
    intro old hold
    obtain rfl : row = old := Option.some.inj (hrow.symm.trans hold)
    exact ⟨row, lookup_deleteTenant.mpr ⟨hrow, hne⟩, .refl row⟩
  | updateRole actor tenantID id role pc =>
    refine (writeStep_spec _ s pc).spares (fun _ db _ hok => ?_) row hrow
    obtain ⟨old, hold, rfl⟩ := updateAPIKeyRoleWrite_ok hok
    refine .setKey hold ?_ k
    exact ⟨rfl, rfl, rfl, rfl⟩
  | create tenantID name role pc =>
    refine (createStep_spec tenantID _ s pc).spares hid (fun db result hok => ?_) row hrow
    obtain ⟨new, hins, -⟩ := createAPIKeyInsert_ok hok
    exact ⟨_, new, hins.drawn, hins.eq⟩
  | createPreset tenantID name role p pc =>
    refine (createStep_spec tenantID _ s pc).spares hid (fun db result hok => ?_) row hrow
    obtain ⟨new, hins, -⟩ := createAPIKeyWithPlaintextInsert_ok hok
    exact ⟨_, new, hins.drawn, hins.eq⟩

end

/-! ## The key and its plaintext -/

def Principal.Of (k T : String) (P : Principal) : Prop :=
  P.keyID = k ∧ P.tenantID = T ∧ P.credentialVersion = 1

/-- What a `Resolve` of the plaintext holds is a principal of the key; one that started
late never holds anything else and returns nothing else. -/
def ResolvePc.On (k T : String) (late : Prop) : ResolvePc → Prop
  | .bump P _ | .set P => P.Of k T
  | .miss => False
  | .check P => late → P.Of k T
  | .drop => late → False
  | .done result => late → ∃ P, result = .ok P ∧ P.Of k T
  | .get | .negative | .select => True

def Task.caches (p : Bytes) : Task H → Bool
  | .resolve q (.bump _ _) | .resolve q (.set _) | .resolve q .miss => decide (q = p)
  | _ => false

/-- What call `i` may be doing while the key is live; `n` calls were started before. -/
structure LiveCall (k T : String) (p : Bytes) (n i : Nat) (t : Task H) : Prop where
  informed : t.Informed
  spares : t.threatens k T = false
  on : ∀ pc, t = .resolve p pc → pc.On k T (n ≤ i)

section
variable [DecidableEq D]

/-- The key `k` has the plaintext `p` for itself, and the cache says nothing else. -/
structure Live (c : Crypto H D) (k T : String) (p : Bytes) (s : Shared H D) : Prop where
  issued : k ∈ s.issued
  drawn : p ∈ s.drawn
  row : ∃ row, s.store.db.keys.lookup k = some row ∧ row.tenantID = T ∧ row.version = 1 ∧
    c.compare row.hash p = true ∧ row.keyPrefix = p.take apiKeyPrefixLen
  only : ∀ id row, s.store.db.keys.lookup id = some row → c.compare row.hash p = true → id = k
  negative : ∀ exp, s.store.cache.negatives.lookup (c.hashKey p) = some exp → exp ≤ s.now
  cached : ∀ e, s.store.cache.entries.lookup (c.hashKey p) = some e →
    e.expiry < s.now ∨ e.principal.Of k T

/-- Nothing about the plaintext is left: no key has it, the cache has nothing on it that
has not expired, and no slow `Resolve` is about to store anything. -/
structure Clear (c : Crypto H D) (p : Bytes) (now : Int) (w : Pool (Shared H D) (Task H)) :
    Prop where
  rows : ∀ e ∈ w.shared.store.db.keys.entries, c.compare e.2.hash p = false
  negative : ∀ exp ∈ w.shared.store.cache.negatives.lookup (c.hashKey p), exp ≤ now
  cached : ∀ e ∈ w.shared.store.cache.entries.lookup (c.hashKey p), e.expiry < now
  calls : ∀ t ∈ w.calls, t.caches p = false

variable {p : Bytes} {k T : String} {ch : Choice} {t : Task H} {w : Pool (Shared H D) (Task H)}
variable {n : Nat}
variable {i : Nat} {name : String} {role : Role} {key : APIKey}

theorem AuthCache.isNegative_eq_true {cache : AuthCache D} {now : Int}
    (h : cache.isNegative c now p = true) :
    ∃ exp, cache.negatives.lookup (c.hashKey p) = some exp ∧ now < exp := by
  rw [AuthCache.isNegative] at h
  split at h
  · cases h
  · split at h
    · cases h
    next exp hexp => exact ⟨exp, hexp, of_decide_eq_true h⟩

/-- The step of a `Resolve` of the plaintext while the key is live and nothing fails. -/
theorem ResolveStep.on {s : Shared H D} {pc pc' : ResolvePc}
    (h : ResolveStep c ch p s.store pc s' pc') {late : Prop} (hsound : Sound c s)
    (hlive : Live c k T p s) (hnow : s.now ≤ ch.now) (hdb : ch.dbErr = false) (hpc : pc.On k T late)
    : pc'.On k T late := by
  obtain ⟨row, hrow, hten, hver, hcmp, hprefix⟩ := hlive.row
  cases h with
  | failed _ herr => exact absurd (herr.symm.trans hdb) (by decide)
  | hit e he hexp =>
    rcases hlive.cached e he with hlt | hof
    · omega
    · exact fun _ => hof
  | unknown | unsure => trivial
  | stale cached hstale =>
    intro hlate
    obtain ⟨hk, hT, hone⟩ := hpc hlate
    have hauth : s.store.db.authority cached.keyID = some row := by
      rw [hk]
      exact authority_eq_some.mpr ⟨hrow, hsound.tenants k row hrow⟩
    exact hstale row hauth (hten.trans hT.symm) (hver.trans hone.symm)
  | proved cached row' => exact fun hlate => ⟨_, rfl, hpc hlate⟩
  | dropped => exact fun hlate => (hpc hlate).elim
  | refused hneg =>
    obtain ⟨exp, hexp, hlt⟩ := AuthCache.isNegative_eq_true hneg
    have hle := hlive.negative exp hexp
    omega
  | missing hnone =>
    exact hnone ⟨k, row⟩ (mem_candidates.mpr ⟨hrow, hprefix⟩) hcmp
  | found id row' hrow' hcmp' _ hfound =>
    obtain rfl := hlive.only id row' hrow' hcmp'
    obtain rfl : row = row' := Option.some.inj (hrow.symm.trans hrow')
    rcases hfound with rfl | rfl <;> exact ⟨rfl, hten, hver⟩
  | unbumped | bumped => exact hpc
  | stored P => exact fun _ => ⟨P, rfl, hpc⟩
  | missed => exact hpc.elim
  | done => exact hpc

theorem Task.step_threatens (h : t.threatens k T = false) :
    (t.step c ch s).2.threatens k T = false := by
  cases t with
  | resolve | updateRole | create | createPreset => rfl
  | rotate actor tenantID id pc =>
    exact (rotateStep_spec actor tenantID id s pc).threatens h
  | bulkRotate actor tenantID exclude pc =>
    exact (bulkRotateStep_spec actor tenantID exclude s pc).threatens h
  | deleteKey actor tenantID id pc =>
    cases hpc : (writeStep ch (deleteAPIKeyWrite actor tenantID id) s pc).2 with
    | tx => exact absurd hpc (writeStep_spec _ s pc).ne_tx
    | flush | done => rw [Task.step, Prod.map_snd, hpc]; rfl
  | deleteTenant id pc =>
    cases hpc : (writeStep ch (deleteTenantWrite id) s pc).2 with
    | tx => exact absurd hpc (writeStep_spec _ s pc).ne_tx
    | flush | done => rw [Task.step, Prod.map_snd, hpc]; rfl

theorem LiveCall.own {s : Shared H D} (ht : LiveCall k T p n i t) (hsound : Sound c s)
    (hlive : Live c k T p s) (hdb : ch.dbErr = false) : LiveCall k T p n i (t.next c ch s).2 := by
  rw [Task.next]
  split
  next hpossible =>
    refine ⟨Task.step_informed ht.informed, Task.step_threatens ht.spares, fun pc' htask => ?_⟩
    obtain ⟨pc, rfl, hstep⟩ := Task.step_resolve htask
    exact hstep.on hsound hlive hpossible.1 hdb (ht.on pc rfl)
  · exact ht

theorem Live.next {s : Shared H D} (hlive : Live c k T p s) (ht : LiveCall k T p n i t)
    (hins : t.inserting ≠ some p) : Live c k T p (t.next c ch s).1 := by
  by_cases hpossible : ch.Possible s
  · have hgrows := t.next_grows (c := c) ch s
    have hstore : (t.next c ch s).1.store = (t.step c ch s.store).1 := by
      rw [Task.next, if_pos hpossible]
    obtain ⟨row, hrow, hten, hver, hcmp, hprefix⟩ := hlive.row
    refine ⟨hgrows.issued hlive.issued, hgrows.drawn hlive.drawn, ?_, fun id row' hrow' hcmp' => ?_,
      fun exp hexp => ?_, fun e he => ?_⟩
    · obtain ⟨row', hrow', hsame⟩ := Task.step_spares (c := c) ht.informed ht.spares hrow hten
        fun hid => hpossible.2.1 k hid hlive.issued
      refine ⟨row', hstore ▸ hrow', hsame.tenantID.trans hten, hsame.version.trans hver, ?_,
        hsame.keyPrefix.trans hprefix⟩
      rw [hsame.hash, hcmp]
    · cases Task.next_row hrow' with
      | kept old hold _ hash => exact hlive.only id old hold (hash ▸ hcmp')
      | rotated _ q _ _ _ keyed fresh =>
        obtain rfl : p = q := by simpa [keyed p] using hcmp'
        exact absurd hlive.drawn fresh
      | inserted q _ _ _ keyed _ origin =>
        obtain rfl : p = q := by simpa [keyed p] using hcmp'
        rcases origin with fresh | hinserting
        · exact absurd hlive.drawn fresh
        · exact absurd hinserting hins
    · rw [hstore] at hexp
      rcases (t.step_cache c ch s.store).negatives hexp with hold | ⟨q, rfl, hkey⟩
      · exact (hlive.negative exp hold).trans hgrows.now
      · obtain rfl := c.hashKey_injective hkey
        exact (ht.on .miss rfl).elim
    · rw [hstore] at he
      rcases (t.step_cache c ch s.store).entries he with hold | ⟨q, P, rfl, hkey, rfl⟩
      · rcases hlive.cached e hold with hlt | hof
        · exact .inl (hlt.trans_le hgrows.now)
        · exact .inr hof
      · obtain rfl := c.hashKey_injective hkey
        exact .inr (ht.on (.set P) rfl)
  · rw [Task.next, if_neg hpossible]
    exact hlive

/-! ## Runs -/

def NoFault (_ : Pool (Shared H D) (Task H)) : Act Call Choice → Prop
  | .start _ => True
  | .step _ ch => ch.dbErr = false

def Undisturbed (k T : String) (_ : Pool (Shared H D) (Task H)) : Act Call Choice → Prop
  | .start call => (Task.start call : Task H).threatens k T = false
  | .step _ _ => True

/-- A plaintext is inserted only when nothing about it is left. -/
def ClearInsert (c : Crypto H D) (w : Pool (Shared H D) (Task H)) : Act Call Choice → Prop
  | .start _ => True
  | .step i ch => ∀ t ∈ w.calls[i]?, ∀ p ∈ t.inserting, Clear c p ch.now w

instance (w : Pool (Shared H D) (Task H)) : ∀ a, Decidable (NoFault w a)
  | .start _ => inferInstanceAs (Decidable True)
  | .step _ ch => inferInstanceAs (Decidable (ch.dbErr = false))

instance (k T : String) (w : Pool (Shared H D) (Task H)) : ∀ a, Decidable (Undisturbed k T w a)
  | .start call => inferInstanceAs (Decidable ((Task.start call : Task H).threatens k T = false))
  | .step _ _ => inferInstanceAs (Decidable True)

instance (c : Crypto H D) (p : Bytes) (now : Int) (w : Pool (Shared H D) (Task H)) :
    Decidable (Clear c p now w) :=
  decidable_of_iff
    ((∀ e ∈ w.shared.store.db.keys.entries, c.compare e.2.hash p = false) ∧
      (∀ exp ∈ w.shared.store.cache.negatives.lookup (c.hashKey p), exp ≤ now) ∧
      (∀ e ∈ w.shared.store.cache.entries.lookup (c.hashKey p), e.expiry < now) ∧
      ∀ t ∈ w.calls, t.caches p = false)
    ⟨fun ⟨rows, negative, cached, calls⟩ => ⟨rows, negative, cached, calls⟩,
      fun ⟨rows, negative, cached, calls⟩ => ⟨rows, negative, cached, calls⟩⟩

instance (c : Crypto H D) (w : Pool (Shared H D) (Task H)) : ∀ a, Decidable (ClearInsert c w a)
  | .start _ => inferInstanceAs (Decidable True)
  | .step i ch =>
    inferInstanceAs (Decidable (∀ t ∈ w.calls[i]?, ∀ p ∈ t.inserting, Clear c p ch.now w))

theorem live_act (hwf : wellFormed p = true) {a : Act Call Choice}
    (h : Holds (Sound c) (Holding c) w ∧
      Holds (Live c k T p) (fun i _ => LiveCall k T p n i) w)
    (ha : (NoFault w a ∧ Undisturbed k T w a) ∧ ClearInsert c w a) :
    Holds (Sound c) (Holding c) ((tenancy c).act w a) ∧
      Holds (Live c k T p) (fun i _ => LiveCall k T p n i) ((tenancy c).act w a) := by
  obtain ⟨hsound, hlive⟩ := h
  refine ⟨sound_act hsound a, hlive.act (fun call hcall => ?_) (fun i ch t hstep ht => ?_)
    fun i ch t j u _ _ hu _ => hlive.2 j u hu⟩
  · subst hcall
    refine ⟨Task.start_informed call, ha.1.2, fun pc htask => ?_⟩
    cases call <;> simp only [tenancy, Task.start, Task.resolve.injEq, reduceCtorEq] at htask
    obtain ⟨rfl, rfl⟩ := htask
    rw [if_pos hwf]
    trivial
  · subst hstep
    refine ⟨hlive.1.next (hlive.2 i t ht) fun hins => ?_,
      (hlive.2 i t ht).own hsound.1 hlive.1 ha.1.1⟩
    -- another key would get the plaintext
    obtain ⟨row, hrow, -, -, hcmp, -⟩ := hlive.1.row
    have hclear := ha.2 t ht p hins
    exact absurd (hclear.rows _ (AList.mem_lookup_iff.mp hrow)) (by simp [hcmp])

theorem live_of_inserted (hclear : Clear c p ch.now w)
    (h : (Task.next c ch w.shared (.createPreset T name role p .insert)).2 =
      .createPreset T name role p (.done (.ok key))) :
    Live c key.id T p (Task.next c ch w.shared (.createPreset T name role p .insert)).1 := by
  rw [Task.next] at h ⊢
  split at h
  next hpossible =>
    rw [if_pos hpossible]
    let insert := createAPIKeyWithPlaintextInsert c ch T name role p
    have hspec : CreateStep insert w.shared.store .insert
        (createStep ch T insert w.shared.store .insert).1
        (createStep ch T insert w.shared.store .insert).2 := createStep_spec ..
    have hdone : (createStep ch T insert w.shared.store .insert).2 = .done (.ok key) := by
      simpa [Task.step] using h
    rw [hdone] at hspec
    obtain ⟨db, hok, hstore⟩ := hspec.inserted
    obtain ⟨row, hins, hten, hkeyed, hprefix⟩ := createAPIKeyWithPlaintextInsert_ok hok
    have hdb := hins.eq
    subst hdb
    change Live c key.id T p ⟨(createStep ch T insert w.shared.store .insert).1, _, _, _⟩
    rw [hstore]
    refine ⟨by simp [hins.drawn], by simp [Task.preset], ?_, fun id row' hrow' hcmp => ?_,
      hclear.negative, fun e he => .inl (hclear.cached e he)⟩
    · refine ⟨row, lookup_setKey_self _ _ _, hten, hins.version, ?_, hprefix⟩
      simpa using hkeyed p
    · by_contra hne
      rw [lookup_setKey_ne row hne] at hrow'
      have hfalse := hclear.rows _ (AList.mem_lookup_iff.mp hrow')
      exact absurd (hcmp.symm.trans hfalse) (by decide)
  next => simp at h

theorem live_insert {j : Nat} (hinf : Holds (fun _ => True) (fun _ _ => Task.Informed) w)
    (hj : w.calls[j]? = some (.createPreset T name role p .insert))
    (hins : ((tenancy c).act w (.step j ch)).calls[j]? =
      some (.createPreset T name role p (.done (.ok key)))) (hclear : Clear c p ch.now w)
    (hquiet : ∀ t ∈ w.calls, t.threatens key.id T = false) :
    Holds (Live c key.id T p) (fun i _ => LiveCall key.id T p w.calls.length i)
      ((tenancy c).act w (.step j ch)) := by
  have hcalls : ∀ i t, w.calls[i]? = some t → LiveCall key.id T p w.calls.length i t := by
    intro i t ht
    have hmem := mem_of_getElem? ht
    have hlt := (List.getElem?_eq_some_iff.mp ht).choose
    refine ⟨hinf.2 i t ht, hquiet t hmem, fun pc htask => ?_⟩
    subst htask
    have hcaches := hclear.calls _ hmem
    cases pc with
    | bump | set | miss => simp [Task.caches] at hcaches
    | check | drop | done => exact fun hle => absurd hle (by omega)
    | get | negative | select => trivial
  set t : Task H := .createPreset T name role p .insert with ht
  have hshared : ((tenancy c).act w (.step j ch)).shared = (t.next c ch w.shared).1 := by
    rw [act, hj]
    rfl
  have hmoved : (t.next c ch w.shared).2 = .createPreset T name role p (.done (.ok key)) := by
    rcases call_act_of_some hj (.step j ch) with hsame | ⟨ch', heq, hmoved⟩
    · rw [hins, ht] at hsame
      simp at hsame
    · cases heq
      exact Option.some.inj (hmoved.symm.trans hins)
  refine ⟨hshared ▸ live_of_inserted hclear hmoved, fun i u hu => ?_⟩
  rcases call_act_cases hu with ⟨hold, -⟩ | ⟨ch', t', heq, ht', rfl⟩ | ⟨call, heq, -⟩
  · exact hcalls i u hold
  · obtain ⟨rfl, rfl⟩ : j = i ∧ ch = ch' := by simpa using heq
    obtain rfl : t = t' := Option.some.inj (hj.symm.trans ht')
    change LiveCall key.id T p w.calls.length j (t.next c ch w.shared).2
    rw [hmoved]
    exact ⟨trivial, rfl, fun pc htask => by simp at htask⟩
  · cases heq

/-- **A created key authenticates when nothing about its plaintext is left.**  In a run
without database failures in which a plaintext is only inserted when it is clear, a
`Resolve` of the plaintext that starts after the creation has returned, and ends before a
rotation or deletion of the key or its tenant has begun, returns the principal of the
key. -/
theorem created_key_authenticates (c : Crypto H D) (o : Opening c)
    (before between after : List (Act Call Choice)) (j : Nat) (ch : Choice) (T name : String)
    (role : Role) (p : Bytes) (key : APIKey) (result : Except Err Principal)
    (hj : ((tenancy c).run o.pool before).calls[j]? = some (.createPreset T name role p .insert))
    (hcreated : ((tenancy c).run o.pool (before ++ [.step j ch])).calls[j]? =
      some (.createPreset T name role p (.done (.ok key))))
    (hquiet : ∀ t ∈ ((tenancy c).run o.pool before).calls, t.threatens key.id T = false)
    (hfault : (tenancy c).Steps NoFault ((tenancy c).run o.pool before)
      (.step j ch :: (between ++ .start (.resolve p) :: after)))
    (hundisturbed : (tenancy c).Steps (Undisturbed key.id T) ((tenancy c).run o.pool before)
      (.step j ch :: (between ++ .start (.resolve p) :: after)))
    (hclear : (tenancy c).Steps (ClearInsert c) ((tenancy c).run o.pool before)
      (.step j ch :: (between ++ .start (.resolve p) :: after)))
    (hret : ((tenancy c).run o.pool
        (before ++ .step j ch :: between ++ .start (.resolve p) :: after)).calls[
      ((tenancy c).run o.pool (before ++ .step j ch :: between)).calls.length]? =
        some (.resolve p (.done result))) :
    ∃ P, result = .ok P ∧ P.keyID = key.id ∧ P.tenantID = T ∧ P.credentialVersion = 1 ∧
      ∃ mid rest, after = mid ++ rest ∧
        MomentOf c ((tenancy c).run o.pool
            (before ++ .step j ch :: between ++ .start (.resolve p) :: mid))
          ((tenancy c).run o.pool (before ++ .step j ch :: between)).calls.length p P := by
  set w := (tenancy c).run o.pool before with hw
  have hinf := run_informed o before
  rw [run_append] at hcreated
  have hlive := live_insert hinf hj hcreated (hclear.1 _ hj p rfl) hquiet
  have hwf : wellFormed p = true := hinf.2 j _ hj
  have hsteps := (hfault.2.and hundisturbed.2).and hclear.2
  have hrun := hsteps.run_induction (fun _ _ => live_act hwf)
    ⟨sound_act (o.run_sound before) (.step j ch), hlive⟩
  have hwhole : (tenancy c).run o.pool
      (before ++ .step j ch :: between ++ .start (.resolve p) :: after) =
        (tenancy c).run ((tenancy c).act w (.step j ch)) (between ++ .start (.resolve p) :: after) := by
    rw [append_assoc, run_append]
    rfl
  have hlate : w.calls.length ≤
      ((tenancy c).run o.pool (before ++ .step j ch :: between)).calls.length := by
    rw [run_append]
    exact length_run _ _
  have hcall := hret
  rw [hwhole] at hcall
  obtain ⟨P, rfl, hkey, htenant, hversion⟩ := (hrun.2.2 _ _ hcall).on _ rfl hlate
  rw [run_append] at hret
  obtain ⟨mid, rest, hafter, hmoment⟩ :=
    accepted_moment (o.run_sound (before ++ .step j ch :: between)) p after hret rfl
  exact ⟨P, rfl, hkey, htenant, hversion, mid, rest, hafter, by rwa [run_append]⟩

end

/-! ## A plaintext that failed before -/

def emptyOpening : Opening Crypto.plain where
  db := ⟨["t"], ∅⟩
  ttl := 0
  maxSize := 0
  now := 0
  drawn := []
  tenants id row h := by simp at h
  secrets id row h := by simp at h

def createActs (j : Nat) : List (Act Call Choice) :=
  [.start (.createAPIKeyWithPlaintext "t" "ci" .editor sharedPlaintext), .step j (.quiet 0)]

def insertChoice : Choice := { Choice.quiet 0 with keyID := some "key_1" }

def createdKey : APIKey :=
  ⟨"key_1", "t", "ci", sharedPlaintext.take apiKeyPrefixLen, .editor, 0⟩

/-- A key created on a clear store. -/
theorem created_key_authenticates_clear :
    ∃ P : Principal, (Except.ok ⟨"t", "key_1", .editor, 1⟩ : Except Err Principal) = .ok P ∧
      P.keyID = "key_1" ∧ P.tenantID = "t" ∧ P.credentialVersion = 1 := by
  obtain ⟨P, hP, hkey, htenant, hversion, -⟩ := created_key_authenticates Crypto.plain emptyOpening
    (createActs 0) [] (replicate 5 (.step 1 (.quiet 0))) 0 insertChoice "t" "ci" .editor
    sharedPlaintext createdKey (.ok ⟨"t", "key_1", .editor, 1⟩) (by decide +kernel)
    (by decide +kernel) (by decide +kernel) (by decide +kernel) (by decide +kernel)
    (by decide +kernel) (by decide +kernel)
  exact ⟨P, hP, hkey, htenant, hversion⟩

/-- A `Resolve` of the plaintext before the creation makes the store refuse the key for
thirty seconds after it. -/
theorem created_key_refused :
    let acts : List (Act Call Choice) := .start (.resolve sharedPlaintext) ::
      replicate 4 (.step 0 (.quiet 0)) ++ createActs 1 ++ [.step 1 insertChoice]
    let w := (tenancy Crypto.plain).run emptyOpening.pool acts
    w.calls[1]? = some (.createPreset "t" "ci" .editor sharedPlaintext (.done (.ok createdKey))) ∧
      ((tenancy Crypto.plain).run w (.start (.resolve sharedPlaintext) ::
        replicate 2 (.step 2 (.quiet (29 * second))))).calls[2]? =
          some (.resolve sharedPlaintext (.done (.error .invalidKey))) := by
  decide +kernel

end MockAgents.Tenancy
