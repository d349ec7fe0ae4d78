import MockAgents.Lib.Strings
import Mathlib
/-!
# The vector store

The collections of `internal/vector/store.go` and the calls that change them.  The ranking of a
query, its chaos policy and the fetching of points read one collection and change none.
-/

namespace MockAgents.Vector

open Lib Lib.Utf8

def maxDimensions : Nat := 65536

def maxPoints : Nat := 100000

inductive Metric where
  | cosine
  | dot
  | euclidean
  deriving DecidableEq, Repr

/-- A point with coordinates `V`; `M` is its metadata and its external id. -/
structure Point (V M : Type) where
  id : Bytes
  vector : List V
  metadata : M

/-- `dimension` is zero until the first upsert of a pending collection. -/
structure Collection (V M : Type) where
  dimension : Nat
  metric : Metric
  points : AList fun _ : Bytes => Point V M

inductive Err where
  | collectionNotFound (name : Bytes)
  | collectionExists (name : Bytes)
  | nameRequired
  | dimensionRange
  | invalidMetric
  | dimensionMismatch (id : Bytes) (want : Nat)
  | pointIDRequired (i : Nat)
  | notFinite (id : Bytes)
  | collectionFull
  deriving DecidableEq

structure Store (V M : Type) where
  collections : AList fun _ : Bytes => Collection V M

def scopedCollectionName (tenantID name : Bytes) : Bytes :=
  if tenantID = [] then name else tenantID ++ 0 :: name

namespace Store

variable {V M : Type}

def empty : Store V M := ⟨∅⟩

def addCollection (s : Store V M) (name : Bytes) (c : Collection V M) : Except Err (Store V M) :=
  if (s.collections.lookup name).isSome then .error (.collectionExists name)
  else .ok ⟨s.collections.insert name c⟩

/-- `CreateCollection`; the name is trimmed here and nowhere else. -/
def createCollection (s : Store V M) (name : Bytes) (dimension : Int) (metric : Metric) :
    Except Err (Store V M) :=
  let name := Strings.trimSpace name
  if name = [] then .error .nameRequired
  else if dimension ≤ 0 ∨ (maxDimensions : Int) < dimension then .error .dimensionRange
  else s.addCollection name ⟨dimension.toNat, metric, ∅⟩

def createPendingCollection (s : Store V M) (name : Bytes) (metric : Metric) : Except Err (Store V M) :=
  let name := Strings.trimSpace name
  if name = [] then .error .nameRequired else s.addCollection name ⟨0, metric, ∅⟩

def collection (s : Store V M) (name : Bytes) : Except Err (Collection V M) :=
  match s.collections.lookup name with
  | none => .error (.collectionNotFound name)
  | some c => .ok c

def names (s : Store V M) : List Bytes :=
  s.collections.keys.mergeSort fun a b => !(List.lex b a fun x y => decide (x < y))

def deleteCollection (s : Store V M) (name : Bytes) : Except Err (Store V M) := do
  let _ ← s.collection name
  .ok ⟨s.collections.erase name⟩

/-- The dimension an upsert checks against; a pending collection learns it from the first point. -/
def targetDimension (c : Collection V M) : List (Point V M) → Except Err Nat
  | [] => .ok c.dimension
  | p :: _ =>
    if c.dimension ≠ 0 then .ok c.dimension
    else if p.vector.length = 0 ∨ maxDimensions < p.vector.length then .error (.dimensionMismatch p.id 0)
    else .ok p.vector.length

def checkPoint (finite : V → Bool) (want i : Nat) (p : Point V M) : Except Err Unit :=
  if p.id = [] then .error (.pointIDRequired i)
  else if p.vector.length ≠ want then .error (.dimensionMismatch p.id want)
  else if p.vector.all finite then .ok () else .error (.notFinite p.id)

/-- `Upsert`: the whole batch is checked before the first point is set. -/
def upsert (finite : V → Bool) (s : Store V M) (name : Bytes) (points : List (Point V M)) :
    Except Err (Store V M) := do
  let c ← s.collection name
  let want ← targetDimension c points
  let _ ← points.zipIdx.mapM fun p => checkPoint finite want p.2 p.1
  let newIDs := ((points.map (·.id)).filter fun id => (c.points.lookup id).isNone).dedup
  if maxPoints < c.points.keys.length + newIDs.length then .error .collectionFull
  else .ok ⟨s.collections.insert name
    { c with dimension := want, points := points.foldl (fun m p => m.insert p.id p) c.points }⟩

def delete (s : Store V M) (name : Bytes) (ids : List Bytes) : Except Err (Store V M) := do
  let c ← s.collection name
  .ok ⟨s.collections.insert name { c with points := ids.foldl (fun m id => m.erase id) c.points }⟩

def deleteAll (s : Store V M) (name : Bytes) : Except Err (Store V M) := do
  let c ← s.collection name
  .ok ⟨s.collections.insert name { c with points := ∅ }⟩

end Store

end MockAgents.Vector
