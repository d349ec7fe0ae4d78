import MockAgents.Lib.Strings
/-!
# Pipeline documents

The data model of `internal/types/pipeline.go`: a pipeline wires agent nodes
together under one of three topologies.  Node ids, refs and names are Lean
strings; message contents are Go strings, that is byte lists.
-/

namespace MockAgents.Pipeline

open Lib

structure PipelineAgent where
  id : String
  ref : String
deriving DecidableEq, Repr

/-- A directed connection in a graph topology.  An empty `whenContains` is an
unconditional edge. -/
structure PipelineEdge where
  fromID : String
  toID : String
  whenContains : Bytes := []
deriving DecidableEq, Repr

/-- The topology field: the three supported words, the absent field, and any
other text a document may carry. -/
inductive Topology where
  | unset
  | sequential
  | parallel
  | graph
  | other (name : String)
deriving DecidableEq, Repr

structure PipelineSpec where
  topology : Topology
  agents : List PipelineAgent
  edges : List PipelineEdge := []
deriving DecidableEq, Repr

/-- `types.PipelineDefinition`; of the metadata only the name is read. -/
structure PipelineDefinition where
  apiVersion : String
  kind : String
  name : String
  spec : PipelineSpec
deriving DecidableEq, Repr

/-- The guard of an edge: it fires on an output that contains the guard text. -/
def PipelineEdge.fires (e : PipelineEdge) (content : Bytes) : Bool :=
  e.whenContains.isEmpty || Strings.contains content e.whenContains

/-- The edges the executor and the validator both count: two distinct declared
endpoints. -/
def PipelineSpec.counted (spec : PipelineSpec) (e : PipelineEdge) : Bool :=
  e.fromID != e.toID &&
    (spec.agents.any (·.id == e.fromID) && spec.agents.any (·.id == e.toID))

/-- The edge relation of the graph: some counted edge leads from `u` to `v`. -/
def PipelineSpec.Edge (spec : PipelineSpec) (u v : String) : Prop :=
  ∃ e ∈ spec.edges, spec.counted e = true ∧ e.fromID = u ∧ e.toID = v

/-- The node id is declared under `spec.agents`. -/
def PipelineSpec.Declared (spec : PipelineSpec) (id : String) : Prop :=
  id ∈ spec.agents.map (·.id)

instance (spec : PipelineSpec) (id : String) : Decidable (spec.Declared id) :=
  inferInstanceAs (Decidable (id ∈ _))

theorem PipelineSpec.any_id_iff (spec : PipelineSpec) (id : String) :
    spec.agents.any (·.id == id) = true ↔ spec.Declared id := by
  simp [Declared, List.any_eq_true]

theorem PipelineSpec.counted_iff (spec : PipelineSpec) (e : PipelineEdge) :
    spec.counted e = true ↔
      e.fromID ≠ e.toID ∧ spec.Declared e.fromID ∧ spec.Declared e.toID := by
  rw [counted, Bool.and_eq_true, Bool.and_eq_true, any_id_iff, any_id_iff]
  simp

end MockAgents.Pipeline
