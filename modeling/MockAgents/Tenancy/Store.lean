import MockAgents.Lib.Pool
import MockAgents.Tenancy.AuthCache
/-!
# The tenant store

`store.go` over its auth cache: the two tables, and every call as a sequence of atomic
steps.  A SQL statement, a transaction and a cache operation are one step each; what a
call computes between two of them is part of the one it needs it for.  The environment
chooses the time, the order of rows without `ORDER BY`, the random bytes, and whether
the database fails.  It never draws an id or a plaintext a second time.
-/

namespace MockAgents.Tenancy

open Lib Lib.Maps

/-! ## The tables -/

/-- A row of `api_keys`; its id is the key of the table.  Times are in seconds. -/
structure KeyRow (H : Type) where
  tenantID : String
  name : String
  keyPrefix : Bytes
  hash : H
  role : Role
  createdAt : Int
  lastUsed : Option Int
  version : Int
deriving DecidableEq

structure Database (H : Type) where
  /-- the ids of the rows of `tenants` -/
  tenants : List String
  keys : AList fun _ : String => KeyRow H

variable {H D : Type}

def KeyRow.rotated (row : KeyRow H) (keyPrefix : Bytes) (hash : H) : KeyRow H :=
  { row with keyPrefix := keyPrefix, hash := hash, lastUsed := none, version := row.version + 1 }

namespace Database

def hasTenant (db : Database H) (id : String) : Bool := decide (id ∈ db.tenants)

/-- `WHERE id = ? AND tenant_id = ?`. -/
def key (db : Database H) (tenantID id : String) : Option (KeyRow H) :=
  (db.keys.lookup id).filter fun row => decide (row.tenantID = tenantID)

def setKey (db : Database H) (id : String) (row : KeyRow H) : Database H :=
  { db with keys := db.keys.insert id row }

def authority (db : Database H) (id : String) : Option (KeyRow H) :=
  (db.keys.lookup id).filter fun row => db.hasTenant row.tenantID

/-- `WHERE prefix = ?`, in any order. -/
def candidates (db : Database H) (sh : Shuffle) (keyPrefix : Bytes) :
    List (Sigma fun _ : String => KeyRow H) :=
  (sh.list db.keys.entries).filter fun e => decide (e.2.keyPrefix = keyPrefix)

/-- `UPDATE api_keys SET last_used`. -/
def touch (db : Database H) (id : String) (lastUsed : Int) : Database H :=
  match db.keys.lookup id with
  | none => db
  | some row => db.setKey id { row with lastUsed := some lastUsed }

/-- `DELETE FROM tenants`, with the cascade to its keys. -/
def deleteTenant (db : Database H) (id : String) : Database H :=
  ⟨db.tenants.filter fun t => decide (t ≠ id),
    keepIf (fun _ row => decide (row.tenantID ≠ id)) db.keys⟩

/-- `ORDER BY created_at ASC, id ASC`. -/
def Earlier (a b : Sigma fun _ : String => KeyRow H) : Prop :=
  a.2.createdAt < b.2.createdAt ∨ a.2.createdAt = b.2.createdAt ∧ a.1 ≤ b.1

instance : DecidableRel (Earlier (H := H)) := fun a b =>
  inferInstanceAs (Decidable (a.2.createdAt < b.2.createdAt ∨
    a.2.createdAt = b.2.createdAt ∧ a.1 ≤ b.1))

/-- The keys of a tenant but the excluded ones; an empty id excludes nothing. -/
def tenantKeys (db : Database H) (tenantID : String) (excludeKeyIDs : List String) :
    List (Sigma fun _ : String => KeyRow H) :=
  let excludeSet := excludeKeyIDs.filter fun kid => kid ≠ ""
  (db.keys.entries.filter fun e =>
    decide (e.2.tenantID = tenantID) && decide (e.1 ∉ excludeSet)).insertionSort Earlier

end Database

structure SQLiteStore (H D : Type) where
  db : Database H
  cache : AuthCache D

/-- What the environment settles in one step. -/
structure Choice where
  now : Int
  sh : Shuffle
  /-- the database fails -/
  dbErr : Bool
  /-- the text of whatever fails outside the store -/
  errText : String
  /-- the keys `generateAPIKey` can draw before the random source fails -/
  draws : List Draw
  /-- what `randID` returns -/
  keyID : Option String
  salt : Nat

def Choice.failure (ch : Choice) : Err := .system ch.errText

/-! ## Transactions -/

def deleteAPIKeyTx (actor : Option Principal) (tenantID id : String) (db : Database H) :
    Except Err (Database H) :=
  match db.key tenantID id with
  | none => .error .notFound
  | some row =>
    match authorizeKeyTarget actor tenantID row.role with
    | .error err => .error err
    | .ok _ => .ok { db with keys := db.keys.erase id }

/-- The transaction of `UpdateAPIKeyRole`, with the previous role. -/
def updateAPIKeyRoleTx (actor : Option Principal) (tenantID id : String) (role : Role)
    (db : Database H) : Except Err (Database H × Role) :=
  match db.key tenantID id with
  | none => .error .notFound
  | some row =>
    match authorizeKeyTarget actor tenantID row.role with
    | .error err => .error err
    | .ok _ => .ok (db.setKey id { row with role := role }, row.role)

/-- A generated key with its hash. -/
structure Secret (H : Type) where
  plaintext : Bytes
  keyPrefix : Bytes
  hash : H

def newSecret (c : Crypto H D) (d : Draw) : Except Err (Secret H) :=
  match c.generate (generateAPIKey d).1 d.salt with
  | .error text => .error (.system ("bcrypt hash: " ++ text))
  | .ok hash => .ok ⟨(generateAPIKey d).1, (generateAPIKey d).2, hash⟩

/-- The transaction of `RotateAPIKey`; `read` is the row read before it. -/
def rotateAPIKeyTx (actor : Option Principal) (callerTenantID id : String) (read : KeyRow H)
    (secret : Secret H) (db : Database H) : Except Err (Database H) :=
  match db.key callerTenantID id with
  | none => .error .notFound
  | some row =>
    match authorizeKeyTarget actor read.tenantID row.role with
    | .error err => .error err
    | .ok _ =>
      if row.role ≠ read.role || row.version ≠ read.version then .error .conflict
      -- the rows the guarded UPDATE affects
      else if row.keyPrefix ≠ read.keyPrefix then .error .conflict
      else .ok (db.setKey id (row.rotated secret.keyPrefix secret.hash))

/-- A key of a bulk rotation, as it was read, and its new secret. -/
structure Rotation (H : Type) where
  id : String
  read : KeyRow H
  secret : Secret H

def newSecrets (c : Crypto H D) (failure : Err) :
    List (Sigma fun _ : String => KeyRow H) → List Draw → Except Err (List (Rotation H))
  | [], _ => .ok []
  | _ :: _, [] => .error failure
  | e :: rest, d :: draws =>
    match newSecret c d with
    | .error err => .error err
    | .ok secret =>
      match newSecrets c failure rest draws with
      | .error err => .error err
      | .ok rotations => .ok (⟨e.1, e.2, secret⟩ :: rotations)

/-- The first loop of the bulk transaction: every target as it was read, and allowed. -/
def checkTargets (actor : Option Principal) (tenantID : String) (db : Database H) :
    List (Rotation H) → Except Err Unit
  | [] => .ok ()
  | rot :: rest =>
    match db.key tenantID rot.id with
    | none => .error .conflict
    | some row =>
      match authorizeKeyTarget actor tenantID row.role with
      | .error err => .error err
      | .ok _ =>
        if row.role ≠ rot.read.role || row.version ≠ rot.read.version then .error .conflict
        else checkTargets actor tenantID db rest

def Rotation.result (tenantID : String) (rot : Rotation H) : NewAPIKeyResult :=
  ⟨⟨rot.id, tenantID, rot.read.name, rot.secret.keyPrefix, rot.read.role,
    rot.read.createdAt * second⟩, rot.secret.plaintext⟩

/-- The second loop: the guarded updates, with the results and the old prefixes. -/
def updateTargets (tenantID : String) :
    Database H → List (Rotation H) → Except Err (Database H × List NewAPIKeyResult × List Bytes)
  | db, [] => .ok (db, [], [])
  | db, rot :: rest =>
    match (db.key tenantID rot.id).filter fun row =>
        decide (row.role = rot.read.role) && decide (row.version = rot.read.version) with
    | none => .error .conflict
    | some row =>
      match updateTargets tenantID
          (db.setKey rot.id (row.rotated rot.secret.keyPrefix rot.secret.hash)) rest with
      | .error err => .error err
      | .ok (db', results, oldPrefixes) =>
        .ok (db', rot.result tenantID :: results, rot.read.keyPrefix :: oldPrefixes)

def bulkRotateTx (actor : Option Principal) (tenantID : String) (rotations : List (Rotation H))
    (db : Database H) : Except Err (Database H × List NewAPIKeyResult × List Bytes) :=
  match checkTargets actor tenantID db rotations with
  | .error err => .error err
  | .ok _ => updateTargets tenantID db rotations

/-- The insert of both ways to create a key, after `randID`. -/
def insertAPIKey (ch : Choice) (tenantID name : String) (role : Role) (keyPrefix : Bytes) (hash : H)
    (db : Database H) : Except Err (Database H × APIKey) :=
  match ch.keyID with
  | none => .error (.system ("generate id: " ++ ch.errText))
  | some id =>
    if ch.dbErr || !db.hasTenant tenantID || (db.keys.lookup id).isSome then
      .error (.system ("insert api_key: " ++ ch.errText))
    else
      .ok (db.setKey id ⟨tenantID, name, keyPrefix, hash, role, ch.now / second, none, 1⟩,
        ⟨id, tenantID, name, keyPrefix, role, ch.now⟩)

/-! ## Calls -/

def lastUsedResolution : Int := 60 * second

def shouldBumpLastUsed (lastUsed : Option Int) (now : Int) : Bool :=
  match lastUsed with
  | none => true
  | some prev => decide (lastUsedResolution ≤ now - prev * second)

inductive ResolvePc where
  | get
  | check (cached : Principal)
  | drop
  | negative
  | select
  | bump (principal : Principal) (now : Int)
  | set (principal : Principal)
  | miss
  | done (result : Except Err Principal)
deriving DecidableEq

inductive RotatePc (H : Type) where
  | read
  | tx (row : KeyRow H)
  | flush (result : NewAPIKeyResult × Bytes)
  | done (result : Except Err (NewAPIKeyResult × Bytes))
deriving DecidableEq

inductive BulkPc (H : Type) where
  | tenant
  | read
  | tx (existingKeys : List (Sigma fun _ : String => KeyRow H))
  | flush (result : List NewAPIKeyResult × List Bytes)
  | done (result : Except Err (List NewAPIKeyResult × List Bytes))
deriving DecidableEq

inductive WritePc (R : Type) where
  | tx
  | flush (result : R)
  | done (result : Except Err R)
deriving DecidableEq

inductive CreatePc (R : Type) where
  | tenant
  | insert
  | done (result : Except Err R)
deriving DecidableEq

inductive Call where
  | resolve (plaintext : Bytes)
  | rotateAPIKey (actor : Option Principal) (callerTenantID id : String)
  | bulkRotateTenantKeys (actor : Option Principal) (tenantID : String)
      (excludeKeyIDs : List String)
  | deleteAPIKey (actor : Option Principal) (tenantID id : String)
  | deleteTenant (id : String)
  | updateAPIKeyRole (actor : Option Principal) (tenantID id : String) (role : Role)
  | createAPIKey (tenantID name : String) (role : Role)
  | createAPIKeyWithPlaintext (tenantID name : String) (role : Role) (plaintext : Bytes)

/-- A call that was started, with its arguments and where it stands. -/
inductive Task (H : Type) where
  | resolve (plaintext : Bytes) (pc : ResolvePc)
  | rotate (actor : Option Principal) (callerTenantID id : String) (pc : RotatePc H)
  | bulkRotate (actor : Option Principal) (tenantID : String) (excludeKeyIDs : List String)
      (pc : BulkPc H)
  | deleteKey (actor : Option Principal) (tenantID id : String) (pc : WritePc Unit)
  | deleteTenant (id : String) (pc : WritePc Unit)
  | updateRole (actor : Option Principal) (tenantID id : String) (role : Role)
      (pc : WritePc (Role × Role))
  | create (tenantID name : String) (role : Role) (pc : CreatePc NewAPIKeyResult)
  | createPreset (tenantID name : String) (role : Role) (plaintext : Bytes) (pc : CreatePc APIKey)
deriving DecidableEq

def Task.start : Call → Task H
  | .resolve plaintext =>
    .resolve plaintext (if wellFormed plaintext then .get else .done (.error .invalidKey))
  | .rotateAPIKey actor callerTenantID id => .rotate actor callerTenantID id .read
  | .bulkRotateTenantKeys actor tenantID excludeKeyIDs =>
    .bulkRotate actor tenantID excludeKeyIDs .tenant
  | .deleteAPIKey actor tenantID id => .deleteKey actor tenantID id .tx
  | .deleteTenant id => .deleteTenant id .tx
  | .updateAPIKeyRole actor tenantID id role =>
    .updateRole actor tenantID id role
      (if role.isValid then .tx else .done (.error (.invalidRole role)))
  | .createAPIKey tenantID name role =>
    .create tenantID name role
      (if role.isValid then .tenant else .done (.error (.invalidRole role)))
  | .createAPIKeyWithPlaintext tenantID name role plaintext =>
    .createPreset tenantID name role plaintext <|
      match validatePresetAPIKey plaintext with
      | .error err => .done (.error err)
      | .ok _ => if role.isValid then .tenant else .done (.error (.invalidRole role))

section
variable [DecidableEq D] (c : Crypto H D) (ch : Choice)

def SQLiteStore.flush (s : SQLiteStore H D) : SQLiteStore H D :=
  { s with cache := s.cache.invalidate }

def resolveStep (plaintext : Bytes) (s : SQLiteStore H D) : ResolvePc → SQLiteStore H D × ResolvePc
  | .get =>
    let got := s.cache.get c ch.now plaintext
    ({ s with cache := got.1 }, match got.2 with
      | some cached => .check cached
      | none => .negative)
  | .check cached =>
    if ch.dbErr then (s, .done (.error ch.failure))
    else
      match s.db.authority cached.keyID with
      | none => (s, .drop)
      | some row =>
        if row.tenantID ≠ cached.tenantID || row.version ≠ cached.credentialVersion then
          (s, .drop)
        else (s, .done (.ok { cached with role := row.role }))
  | .drop => (s.flush, .done (.error .invalidKey))
  | .negative =>
    (s, if s.cache.isNegative c ch.now plaintext then .done (.error .invalidKey) else .select)
  | .select =>
    if ch.dbErr then (s, .done (.error ch.failure))
    else
      match (s.db.candidates ch.sh (plaintext.take apiKeyPrefixLen)).find? fun e =>
          c.compare e.2.hash plaintext with
      | none => (s, .miss)
      | some e =>
        let principal := ⟨e.2.tenantID, e.1, e.2.role, e.2.version⟩
        (s, if shouldBumpLastUsed e.2.lastUsed ch.now then .bump principal ch.now
          else .set principal)
  | .bump principal now =>
    -- a failed write is ignored
    (if ch.dbErr then s else { s with db := s.db.touch principal.keyID (now / second) },
      .set principal)
  | .set principal =>
    ({ s with cache := s.cache.set c ch.sh ch.now plaintext principal }, .done (.ok principal))
  | .miss =>
    ({ s with cache := s.cache.setNegative c ch.sh ch.now plaintext }, .done (.error .invalidKey))
  | .done result => (s, .done result)

def rotateStep (actor : Option Principal) (callerTenantID id : String) (s : SQLiteStore H D) :
    RotatePc H → SQLiteStore H D × RotatePc H
  | .read =>
    if ch.dbErr then (s, .done (.error ch.failure))
    else
      match s.db.key callerTenantID id with
      | none => (s, .done (.error .notFound))
      | some row => (s, .tx row)
  | .tx row =>
    match ch.draws with
    | [] => (s, .done (.error ch.failure))
    | d :: _ =>
      match newSecret c d with
      | .error err => (s, .done (.error err))
      | .ok secret =>
        if ch.dbErr then (s, .done (.error ch.failure))
        else
          match rotateAPIKeyTx actor callerTenantID id row secret s.db with
          | .error err => (s, .done (.error err))
          | .ok db =>
            ({ s with db := db }, .flush (⟨⟨id, row.tenantID, row.name, secret.keyPrefix,
              row.role, row.createdAt * second⟩, secret.plaintext⟩, row.keyPrefix))
  | .flush result => (s.flush, .done (.ok result))
  | .done result => (s, .done result)

def bulkRotateStep (actor : Option Principal) (tenantID : String) (excludeKeyIDs : List String)
    (s : SQLiteStore H D) : BulkPc H → SQLiteStore H D × BulkPc H
  | .tenant =>
    if ch.dbErr then (s, .done (.error ch.failure))
    else if s.db.hasTenant tenantID then (s, .read)
    else (s, .done (.error .notFound))
  | .read =>
    if ch.dbErr then (s, .done (.error ch.failure))
    else
      match s.db.tenantKeys tenantID excludeKeyIDs with
      | [] => (s, .done (.ok ([], [])))
      | existingKeys => (s, .tx existingKeys)
  | .tx existingKeys =>
    match newSecrets c ch.failure existingKeys ch.draws with
    | .error err => (s, .done (.error err))
    | .ok rotations =>
      if ch.dbErr then (s, .done (.error ch.failure))
      else
        match bulkRotateTx actor tenantID rotations s.db with
        | .error err => (s, .done (.error err))
        | .ok (db, result) => ({ s with db := db }, .flush result)
  | .flush result => (s.flush, .done (.ok result))
  | .done result => (s, .done result)

/-- A call that is one write `tx` and a flush of the cache. -/
def writeStep {R : Type} (tx : Database H → Except Err (Database H × R)) (s : SQLiteStore H D) :
    WritePc R → SQLiteStore H D × WritePc R
  | .tx =>
    if ch.dbErr then (s, .done (.error ch.failure))
    else
      match tx s.db with
      | .error err => (s, .done (.error err))
      | .ok (db, result) => ({ s with db := db }, .flush result)
  | .flush result => (s.flush, .done (.ok result))
  | .done result => (s, .done result)

def createStep {R : Type} (tenantID : String)
    (insert : Database H → Except Err (Database H × R)) (s : SQLiteStore H D) :
    CreatePc R → SQLiteStore H D × CreatePc R
  | .tenant =>
    if ch.dbErr then (s, .done (.error (.tenant tenantID ch.failure)))
    else if s.db.hasTenant tenantID then (s, .insert)
    else (s, .done (.error (.tenant tenantID .notFound)))
  | .insert =>
    match insert s.db with
    | .error err => (s, .done (.error err))
    | .ok (db, result) => ({ s with db := db }, .done (.ok result))
  | .done result => (s, .done result)

def createAPIKeyInsert (tenantID name : String) (role : Role) (db : Database H) :
    Except Err (Database H × NewAPIKeyResult) :=
  match ch.draws with
  | [] => .error ch.failure
  | d :: _ =>
    match newSecret c d with
    | .error err => .error err
    | .ok secret =>
      match insertAPIKey ch tenantID name role secret.keyPrefix secret.hash db with
      | .error err => .error err
      | .ok (db, key) => .ok (db, ⟨key, secret.plaintext⟩)

def createAPIKeyWithPlaintextInsert (tenantID name : String) (role : Role) (plaintext : Bytes)
    (db : Database H) : Except Err (Database H × APIKey) :=
  match c.generate plaintext ch.salt with
  | .error text => .error (.system ("bcrypt hash: " ++ text))
  | .ok hash => insertAPIKey ch tenantID name role (plaintext.take apiKeyPrefixLen) hash db

def deleteAPIKeyWrite (actor : Option Principal) (tenantID id : String) (db : Database H) :
    Except Err (Database H × Unit) :=
  match deleteAPIKeyTx actor tenantID id db with
  | .error err => .error err
  | .ok db => .ok (db, ())

def deleteTenantWrite (id : String) (db : Database H) : Except Err (Database H × Unit) :=
  if db.hasTenant id then .ok (db.deleteTenant id, ()) else .error .notFound

def updateAPIKeyRoleWrite (actor : Option Principal) (tenantID id : String) (role : Role)
    (db : Database H) : Except Err (Database H × (Role × Role)) :=
  match updateAPIKeyRoleTx actor tenantID id role db with
  | .error err => .error err
  | .ok (db, prev) => .ok (db, (prev, role))

def Task.step (s : SQLiteStore H D) : Task H → SQLiteStore H D × Task H
  | .resolve plaintext pc =>
    (resolveStep c ch plaintext s pc).map id (.resolve plaintext)
  | .rotate actor callerTenantID key pc =>
    (rotateStep c ch actor callerTenantID key s pc).map id (.rotate actor callerTenantID key)
  | .bulkRotate actor tenantID excludeKeyIDs pc =>
    (bulkRotateStep c ch actor tenantID excludeKeyIDs s pc).map id
      (.bulkRotate actor tenantID excludeKeyIDs)
  | .deleteKey actor tenantID key pc =>
    (writeStep ch (deleteAPIKeyWrite actor tenantID key) s pc).map id
      (.deleteKey actor tenantID key)
  | .deleteTenant tenantID pc =>
    (writeStep ch (deleteTenantWrite tenantID) s pc).map id (.deleteTenant tenantID)
  | .updateRole actor tenantID key role pc =>
    (writeStep ch (updateAPIKeyRoleWrite actor tenantID key role) s pc).map id
      (.updateRole actor tenantID key role)
  | .create tenantID name role pc =>
    (createStep ch tenantID (createAPIKeyInsert c ch tenantID name role) s pc).map id
      (.create tenantID name role)
  | .createPreset tenantID name role plaintext pc =>
    (createStep ch tenantID (createAPIKeyWithPlaintextInsert c ch tenantID name role plaintext) s
      pc).map id (.createPreset tenantID name role plaintext)

end

/-! ## The running store -/

def Task.preset : Task H → List Bytes
  | .createPreset _ _ _ plaintext _ => [plaintext]
  | _ => []

/-- The store with its clock, and what was drawn or supplied so far. -/
structure Shared (H D : Type) where
  store : SQLiteStore H D
  now : Int
  issued : List String
  drawn : List Bytes

def Choice.Possible (ch : Choice) (s : Shared H D) : Prop :=
  s.now ≤ ch.now ∧ (∀ id ∈ ch.keyID, id ∉ s.issued) ∧ (ch.draws.map Draw.plaintext).Nodup ∧
    ∀ d ∈ ch.draws, d.plaintext ∉ s.drawn

instance (ch : Choice) (s : Shared H D) : Decidable (ch.Possible s) :=
  inferInstanceAs (Decidable (_ ∧ _ ∧ _ ∧ _))

/-- One step of a call; a choice that is not possible leaves all as it is. -/
def Task.next [DecidableEq D] (c : Crypto H D) (ch : Choice) (s : Shared H D) (t : Task H) :
    Shared H D × Task H :=
  if ch.Possible s then
    let r := t.step c ch s.store
    (⟨r.1, ch.now, ch.keyID.toList ++ s.issued,
      ch.draws.map Draw.plaintext ++ t.preset ++ s.drawn⟩, r.2)
  else (s, t)

def tenancy [DecidableEq D] (c : Crypto H D) : System (Shared H D) (Task H) Call Choice :=
  ⟨Task.start, Task.next c⟩

/-- The tables when the store is opened with its auth cache enabled. -/
structure Opening (c : Crypto H D) where
  db : Database H
  ttl : Int
  maxSize : Int
  now : Int
  /-- the plaintexts of the keys that exist -/
  drawn : List Bytes
  tenants : ∀ id row, db.keys.lookup id = some row → row.tenantID ∈ db.tenants
  secrets : ∀ id row, db.keys.lookup id = some row → ∀ p, c.compare row.hash p = true → p ∈ drawn

def Opening.pool {c : Crypto H D} (o : Opening c) : Pool (Shared H D) (Task H) :=
  ⟨⟨⟨o.db, AuthCache.newAuthCache o.ttl o.maxSize⟩, o.now, o.db.keys.keys, o.drawn⟩, []⟩

end MockAgents.Tenancy
