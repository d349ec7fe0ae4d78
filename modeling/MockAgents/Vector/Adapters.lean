import MockAgents.Vector.Store
/-!
# The vector adapters

The handlers of `internal/adapter/qdrant.go`, `chroma.go` and `pinecone.go` that create, delete,
write or list collections.  All three work on one store.  Requests stand as their bodies are
decoded, with a metric as `qdrantMetric` or `chromaMetric` reads it and the point ids of Qdrant as
`qdrantPointKey` stores them.  A collection without coordinates of its own product is the same one in
every product.
-/

namespace MockAgents.Vector

open Lib Lib.Utf8

def defaultTenant : Bytes := bytes "default_tenant"

def defaultDatabase : Bytes := bytes "default_database"

/-- What `keyFor` and `collectionNames` add for a database that is not the default one. -/
def databaseSuffix (tenant database : Bytes) : Bytes :=
  if tenant = defaultTenant ∧ database = defaultDatabase then [] else 2 :: tenant ++ 2 :: database

def qdrantCollectionKey (caller collection : Bytes) : Bytes := scopedCollectionName caller collection

def keyFor (caller tenant database name : Bytes) : Bytes :=
  scopedCollectionName caller name ++ databaseSuffix tenant database

variable {V M : Type}

/-- The name of a key without its caller, if it is one of the database. -/
def databaseName (tenant database n : Bytes) : Option Bytes :=
  let suffix := databaseSuffix tenant database
  if suffix = [] then if [0, 1, 2].any n.contains then none else some n
  else if suffix.isSuffixOf n then some (n.take (n.length - suffix.length)) else none

def listedName (caller tenant database n : Bytes) : Option Bytes :=
  let start := if caller = [] then [] else caller ++ [0]
  if !(start.isPrefixOf n) then none else databaseName tenant database (Strings.trimPrefix n start)

def collectionNames (s : Store V M) (caller tenant database : Bytes) : List Bytes :=
  s.names.filterMap (listedName caller tenant database)

/-- `PineconeHandler.namespaceKey`: the key, and the store with the collection it may have created. -/
def namespaceKey (s : Store V M) (caller index ns : Bytes) (create : Bool) : Except Err (Bytes × Store V M) :=
  let base := scopedCollectionName caller index
  if ns = [] then .ok (base, s)
  else
    let key := base ++ 1 :: ns
    match s.collection key with
    | .ok _ => .ok (key, s)
    | .error err =>
      if !create then .error err
      else do
        let cfg ← s.collection base
        match s.createCollection key cfg.dimension cfg.metric with
        | .ok s' => .ok (key, s')
        | .error (.collectionExists _) => .ok (key, s)
        | .error err => .error err

/-! ## Requests -/

inductive Request (V M : Type) where
  | qdrantCreate (collection : Bytes) (size : Int) (metric : Option Metric)
  | qdrantDelete (collection : Bytes)
  | qdrantUpsert (collection : Bytes) (points : List (Point V M))
  | qdrantDeletePoints (collection : Bytes) (ids : List Bytes)
  | chromaCreate (tenant database name : Bytes) (getOrCreate : Bool) (metric : Option Metric)
  | chromaDelete (tenant database collection : Bytes)
  | chromaWrite (tenant database collection : Bytes) (upsert : Bool) (points : List (Point V M))
  | chromaDeletePoints (tenant database collection : Bytes) (ids : List Bytes)
  | pineconeUpsert (index ns : Bytes) (points : List (Point V M))
  | pineconeDelete (index ns : Bytes) (all : Bool) (ids : List Bytes)

/-- A request and the tenant id of its context, empty for an anonymous one. -/
structure Call (V M : Type) where
  caller : Bytes
  request : Request V M

/-- What a request did to the collection at its address. -/
inductive Outcome where
  | created
  | deleted
  | neither
  deriving DecidableEq

def outcome (s : Store V M) (success : Outcome) : Except Err (Store V M) → Store V M × Outcome
  | .ok s' => (s', success)
  | .error _ => (s, .neither)

/-- `ChromaHandler.CreateCollection`; a collection that exists is a success if the client said so. -/
def chromaCreateCollection (s : Store V M) (caller tenant database name : Bytes) (getOrCreate : Bool)
    (metric : Option Metric) : Store V M × Outcome :=
  if Strings.isBlank name then (s, .neither)
  else
    match metric with
    | none => (s, .neither)
    | some metric =>
      match s.createPendingCollection (keyFor caller tenant database name) metric with
      | .error (.collectionExists _) => (s, if getOrCreate then .created else .neither)
      | result => outcome s .created result

def storedID (id : Bytes) : Bytes := bytes "s:" ++ id

def stored (points : List (Point V M)) : List (Point V M) :=
  points.map fun p => { p with id := storedID p.id }

/-- `ChromaHandler.write`; `Add` refuses a record that is there. -/
def chromaWrite (finite : V → Bool) (s : Store V M) (key : Bytes) (upsert : Bool)
    (points : List (Point V M)) : Store V M × Outcome :=
  if points.isEmpty then (s, .neither)
  else
    match s.collection key with
    | .error _ => (s, .neither)
    | .ok c =>
      if !upsert && (stored points).any fun p => (c.points.lookup p.id).isSome then (s, .neither)
      else outcome s .neither (s.upsert finite key (stored points))

/-- `PineconeHandler.Upsert`; the namespace is created before the vectors are checked. -/
def pineconeUpsert (finite : V → Bool) (s : Store V M) (caller index ns : Bytes)
    (points : List (Point V M)) : Store V M × Outcome :=
  if points.isEmpty then (s, .neither)
  else
    match namespaceKey s caller index ns true with
    | .error _ => (s, .neither)
    | .ok (key, s') =>
      let done := if ns = [] then .neither else .created
      if points.any fun p => Strings.isBlank p.id then (s', done)
      else ((outcome s' .neither (s'.upsert finite key (stored points))).1, done)

def serve (finite : V → Bool) (c : Call V M) (s : Store V M) : Store V M × Outcome :=
  match c.request with
  | .qdrantCreate _ _ none => (s, .neither)
  | .qdrantCreate collection size (some metric) =>
    outcome s .created (s.createCollection (qdrantCollectionKey c.caller collection) size metric)
  | .qdrantDelete collection =>
    outcome s .deleted (s.deleteCollection (qdrantCollectionKey c.caller collection))
  | .qdrantUpsert collection points =>
    outcome s .neither (s.upsert finite (qdrantCollectionKey c.caller collection) points)
  | .qdrantDeletePoints collection ids =>
    outcome s .neither (s.delete (qdrantCollectionKey c.caller collection) ids)
  | .chromaCreate tenant database name getOrCreate metric =>
    chromaCreateCollection s c.caller tenant database name getOrCreate metric
  | .chromaDelete tenant database collection =>
    outcome s .deleted (s.deleteCollection (keyFor c.caller tenant database collection))
  | .chromaWrite tenant database collection upsert points =>
    chromaWrite finite s (keyFor c.caller tenant database collection) upsert points
  | .chromaDeletePoints tenant database collection ids =>
    if ids = [] then (s, .neither)
    else outcome s .neither (s.delete (keyFor c.caller tenant database collection) (ids.map storedID))
  | .pineconeUpsert index ns points => pineconeUpsert finite s c.caller index ns points
  | .pineconeDelete index ns all ids =>
    match namespaceKey s c.caller index ns false with
    | .error _ => (s, .neither)
    | .ok (key, s) =>
      outcome s .neither (if all then s.deleteAll key else s.delete key (ids.map storedID))

/-! ## Addresses -/

/-- The coordinates of a collection: none but the name, a Pinecone namespace or a Chroma database. -/
inductive Place where
  | base (name : Bytes)
  | space (index ns : Bytes)
  | database (tenant database name : Bytes)
  deriving DecidableEq

structure Address where
  caller : Bytes
  place : Place
  deriving DecidableEq

def Address.key (a : Address) : Bytes :=
  match a.place with
  | .base name => qdrantCollectionKey a.caller name
  | .space index ns => scopedCollectionName a.caller index ++ 1 :: ns
  | .database tenant database name => keyFor a.caller tenant database name

/-- A Chroma collection of the default database is the one all products share. -/
def chromaPlace (tenant database name : Bytes) : Place :=
  if tenant = defaultTenant ∧ database = defaultDatabase then .base name else .database tenant database name

/-- A Pinecone index without a namespace is the collection all products share. -/
def pineconePlace (index ns : Bytes) : Place := if ns = [] then .base index else .space index ns

def Request.place : Request V M → Place
  | .qdrantCreate collection _ _ | .qdrantDelete collection | .qdrantUpsert collection _
  | .qdrantDeletePoints collection _ => .base collection
  | .chromaCreate tenant database name _ _ | .chromaDelete tenant database name
  | .chromaWrite tenant database name _ _ | .chromaDeletePoints tenant database name _ =>
    chromaPlace tenant database name
  | .pineconeUpsert index ns _ | .pineconeDelete index ns _ _ => pineconePlace index ns

def Call.address (c : Call V M) : Address := ⟨c.caller, c.request.place⟩

/-! ## Runs -/

/-- The store and what each request did, in order. -/
structure World (V M : Type) where
  store : Store V M
  events : List (Address × Outcome)

def World.start : World V M := ⟨.empty, []⟩

def World.step (finite : V → Bool) (w : World V M) (c : Call V M) : World V M :=
  ⟨(serve finite c w.store).1, w.events ++ [(c.address, (serve finite c w.store).2)]⟩

def run (finite : V → Bool) (calls : List (Call V M)) : World V M :=
  calls.foldl (World.step finite) .start

def Outcome.after : Outcome → Bool → Bool
  | .created, _ => true
  | .deleted, _ => false
  | .neither, b => b

/-- A creation at the address succeeded and none of its deletions did since. -/
def live (events : List (Address × Outcome)) (a : Address) : Bool :=
  events.foldl (fun b e => if e.1 = a then e.2.after b else b) false

end MockAgents.Vector
