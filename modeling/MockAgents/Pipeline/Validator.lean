import MockAgents.Pipeline.Definition
import MockAgents.Lib.Strconv
/-!
# The pipeline validator

`ValidatePipeline` of `internal/config/pipeline_validator.go`.  Each rule
returns the errors it adds, in order; the file, line and column of an error are
looked up in the YAML document and left out.  The unknown-field errors, which
depend on that document alone, are an argument.
-/

namespace MockAgents.Pipeline

open Lib

structure ValidationError where
  field : String
  message : String
  suggestion : String
deriving DecidableEq, Repr

def agentAPIVersion : String := "mockagents/v1"

def pipelineKind : String := "Pipeline"

/-- `strings.Join(validPipelineTopologies, ", ")`. -/
def validPipelineTopologies : String := "sequential, parallel, graph"

def Topology.text : Topology → String
  | .unset => ""
  | .sequential => "sequential"
  | .parallel => "parallel"
  | .graph => "graph"
  | .other name => name

section Rules

variable (printable : Char → Bool)

def quoted (s : String) : String := Strconv.quote printable (Utf8.bytes s)

def validatePipelineAPIVersion (doc : PipelineDefinition) : List ValidationError :=
  if doc.apiVersion = "" then
    [⟨"apiVersion", "required field missing", s!"Add apiVersion: {agentAPIVersion}"⟩]
  else if doc.apiVersion ≠ agentAPIVersion then
    [⟨"apiVersion", "unsupported version " ++ quoted printable doc.apiVersion,
      s!"Use apiVersion: {agentAPIVersion}"⟩]
  else []

def validatePipelineKind (doc : PipelineDefinition) : List ValidationError :=
  if doc.kind = "" then
    [⟨"kind", "required field missing", s!"Add kind: {pipelineKind}"⟩]
  else if doc.kind ≠ pipelineKind then
    [⟨"kind", "unsupported kind " ++ quoted printable doc.kind, s!"Use kind: {pipelineKind}"⟩]
  else []

/-- `metadataNameRe`: hyphen-separated non-empty runs of lower-case letters and
digits. -/
def metadataNameRe (name : String) : Bool :=
  (name.toList.splitOn '-').all fun part =>
    !part.isEmpty && part.all fun c => ('a' ≤ c && c ≤ 'z') || ('0' ≤ c && c ≤ '9')

def validatePipelineMetadata (doc : PipelineDefinition) : List ValidationError :=
  if doc.name = "" then
    [⟨"metadata.name", "required field missing",
      "Add a kebab-case name, e.g. metadata.name: research-pipeline"⟩]
  else
    (if doc.name.utf8ByteSize > 63 then
      [⟨"metadata.name", s!"name exceeds 63 characters (got {doc.name.utf8ByteSize})",
        "Shorten the pipeline name to 63 characters or fewer."⟩]
    else []) ++
    (if !metadataNameRe doc.name then
      [⟨"metadata.name",
        "invalid name " ++ quoted printable doc.name ++ ": must be lowercase kebab-case",
        "Use lowercase letters, numbers, and hyphens only."⟩]
    else [])

def topologyErrors (doc : PipelineDefinition) : List ValidationError :=
  match doc.spec.topology with
  | .unset =>
    [⟨"spec.topology", "required field missing",
      s!"Set spec.topology to one of: {validPipelineTopologies}"⟩]
  | .other name =>
    [⟨"spec.topology", "invalid topology " ++ quoted printable name,
      s!"Must be one of: {validPipelineTopologies}"⟩]
  | _ => []

/-- The agent loop of `validatePipelineSpec`; it returns the errors and the
`seen` map from a node id to the index that declared it. -/
def agentErrors : Nat → (String → Option Nat) → List PipelineAgent →
    List ValidationError × (String → Option Nat)
  | _, seen, [] => ([], seen)
  | i, seen, a :: rest =>
    let field := s!"spec.agents[{i}]"
    if a.id = "" then
      let tail := agentErrors (i + 1) seen rest
      (⟨field ++ ".id", "required field missing",
        "Every pipeline node needs an id (unique within the pipeline)."⟩ :: tail.1, tail.2)
    else
      let refErr := if a.ref = "" then
        [⟨field ++ ".ref", "required field missing",
          "Every pipeline node needs a ref pointing at a loaded agent's metadata.name."⟩]
        else []
      match seen a.id with
      | some prev =>
        let tail := agentErrors (i + 1) seen rest
        (refErr ++ ⟨field ++ ".id", "duplicate node id " ++ quoted printable a.id ++
            s!" (first seen at spec.agents[{prev}])",
          "Each node id must be unique within a pipeline."⟩ :: tail.1, tail.2)
      | none =>
        let tail := agentErrors (i + 1) (Function.update seen a.id (some i)) rest
        (refErr ++ tail.1, tail.2)

def endpointErrors (seen : String → Option Nat) (field key id : String) :
    List ValidationError :=
  if id = "" then
    [⟨field ++ "." ++ key, "required field missing", s!"Every edge needs a `{key}` node id."⟩]
  else if (seen id).isNone then
    [⟨field ++ "." ++ key, "references unknown node " ++ quoted printable id,
      s!"Point `{key}` at a node id declared under spec.agents."⟩]
  else []

/-- The edge loop of `validatePipelineSpec`; `seenEdges` maps a
(from, to, when_contains) triple to the index of its first edge. -/
def edgeErrors (seen : String → Option Nat) :
    Nat → (PipelineEdge → Option Nat) → List PipelineEdge → List ValidationError
  | _, _, [] => []
  | i, seenEdges, edge :: rest =>
    let field := s!"spec.edges[{i}]"
    let endpoints := endpointErrors printable seen field "from" edge.fromID ++
      endpointErrors printable seen field "to" edge.toID
    let selfLoop := if edge.fromID ≠ "" ∧ edge.fromID = edge.toID then
      [⟨field, "self-loop on node " ++ quoted printable edge.fromID,
        "Pipeline edges must connect two distinct nodes."⟩]
      else []
    let guard := if edge.whenContains ≠ [] ∧ Strings.isBlank edge.whenContains then
      [⟨field ++ ".when_contains", "when_contains is whitespace-only",
        "Either remove when_contains entirely or set it to a meaningful substring."⟩]
      else []
    let checked := endpoints ++ selfLoop ++ guard
    if edge.fromID = "" ∨ edge.toID = "" then
      checked ++ edgeErrors seen (i + 1) seenEdges rest
    else
      match seenEdges edge with
      | some prev =>
        let guarded := if edge.whenContains = [] then "" else
          " guarded by " ++ Strconv.quote printable edge.whenContains
        checked ++
          ⟨field, s!"duplicate edge {edge.fromID} → {edge.toID}" ++ guarded ++
              s!" (first seen at spec.edges[{prev}])",
            "Remove the duplicate edge. Two identical guards are redundant; different " ++
              "guards should use distinct when_contains substrings."⟩ ::
          edgeErrors seen (i + 1) seenEdges rest
      | none =>
        checked ++
          edgeErrors seen (i + 1) (Function.update seenEdges edge (some i)) rest

def validatePipelineSpec (doc : PipelineDefinition) : List ValidationError :=
  let noAgents := if doc.spec.agents.isEmpty then
    [⟨"spec.agents", "pipeline declares no agents",
      "Add at least one node under spec.agents with an id and a ref."⟩]
    else []
  let agents := agentErrors printable 0 (fun _ => none) doc.spec.agents
  let edges := if doc.spec.edges.isEmpty then [] else
    (if doc.spec.topology ≠ .unset ∧ doc.spec.topology ≠ .graph then
      [⟨"spec.edges", "edges are only honored under topology " ++ quoted printable "graph" ++
          " (got " ++ quoted printable doc.spec.topology.text ++ ")",
        "Either change spec.topology to graph or remove spec.edges."⟩]
    else []) ++ edgeErrors printable agents.2 0 (fun _ => none) doc.spec.edges
  topologyErrors printable doc ++ noAgents ++ agents.1 ++ edges

/-! ## The graph pass -/

inductive Color where
  | white
  | gray
  | black
deriving DecidableEq, Repr

/-- The variables of `detectPipelineCycle`. -/
structure Dfs where
  color : String → Color
  cycleFound : Bool
  errors : List ValidationError

def isForwardKey (spec : PipelineSpec) (id : String) : Bool :=
  id ≠ "" && spec.agents.any (·.id == id)

def forward (spec : PipelineSpec) : String → List String :=
  spec.edges.foldl
    (fun m e =>
      if !isForwardKey spec e.fromID then m
      else if !isForwardKey spec e.toID then m
      else if e.fromID = e.toID then m
      else Function.update m e.fromID (m e.fromID ++ [e.toID]))
    (fun _ => [])

/-- The successor loop of `dfs`, over the recursive call `dfs`. -/
def dfsEdges (dfs : String → Dfs → Option Dfs) : List String → Dfs → Option Dfs
  | [], d => some d
  | m :: ms, d =>
    if d.cycleFound then some d
    else
      match d.color m with
      | .gray => some { d with
          cycleFound := true
          errors := d.errors ++ [⟨"spec.edges",
            "graph contains a cycle involving node " ++ quoted printable m,
            "Pipeline execution would revisit a node — remove the back edge or " ++
              "split the cycle with a guard."⟩] }
      | .white => (dfs m d).bind (dfsEdges dfs ms)
      | .black => dfsEdges dfs ms d

/-- The `dfs` closure; an abandoned visit leaves its node gray. -/
def dfs (fwd : String → List String) : Nat → String → Dfs → Option Dfs
  | 0, _, _ => none
  | fuel + 1, n, d =>
    if d.cycleFound then some d
    else
      (dfsEdges printable (dfs fwd fuel) (fwd n)
          { d with color := Function.update d.color n .gray }).map fun d =>
        if d.cycleFound then d
        else { d with color := Function.update d.color n .black }

def dfsRoots (visit : String → Dfs → Option Dfs) : List PipelineAgent → Dfs → Option Dfs
  | [], d => some d
  | a :: rest, d =>
    if d.cycleFound then some d
    else if a.id = "" then dfsRoots visit rest d
    else if d.color a.id = .white then (visit a.id d).bind (dfsRoots visit rest)
    else dfsRoots visit rest d

/-- `detectPipelineCycle`: whether a cycle was found, and the errors added. -/
def detectPipelineCycle (spec : PipelineSpec) : Option (Bool × List ValidationError) :=
  (dfsRoots (dfs printable (forward spec) (spec.agents.length + 1)) spec.agents
      ⟨fun _ => .white, false, []⟩).map fun d => (d.cycleFound, d.errors)

def bfs (fwd : String → List String) : Nat → List String → List String → Option (List String)
  | _, [], reachable => some reachable
  | 0, _ :: _, _ => none
  | fuel + 1, n :: queue, reachable =>
    if n ∈ reachable then bfs fwd fuel queue reachable
    else bfs fwd fuel (queue ++ fwd n) (n :: reachable)

def inDegree (spec : PipelineSpec) : String → Int :=
  spec.edges.foldl
    (fun m e =>
      if !isForwardKey spec e.fromID then m
      else if !isForwardKey spec e.toID then m
      else if e.fromID = e.toID then m
      else Function.update m e.toID (m e.toID + 1))
    (fun _ => 0)

/-- The `indexByID` map: a repeated id keeps its last index. -/
def indexByID (agents : List PipelineAgent) (id : String) : Nat :=
  agents.length - 1 - agents.reverse.findIdx (·.id == id)

/-- `validatePipelineGraph`; `order` is the order in which `range` yields the
keys of the in-degree map. -/
def validatePipelineGraph (order : List String) (doc : PipelineDefinition) :
    Option (List ValidationError) :=
  if doc.spec.topology ≠ .graph then some []
  else if doc.spec.agents.isEmpty then some []
  else
    match detectPipelineCycle printable doc.spec with
    | none => none
    | some (true, errors) => some errors
    | some (false, errors) =>
      let fwd := forward doc.spec
      let start := order.filter fun id => inDegree doc.spec id = 0
      if start.isEmpty then some errors
      else
        (bfs fwd (start.length + doc.spec.edges.length) start []).map
          fun reachable =>
            errors ++ doc.spec.agents.filterMap fun a =>
              if a.id = "" then none
              else if a.id ∈ reachable then none
              else some ⟨s!"spec.agents[{indexByID doc.spec.agents a.id}].id",
                "node " ++ quoted printable a.id ++ " is unreachable from any source",
                "Add an inbound edge from another node, or remove the unreachable node."⟩

/-- `ValidatePipeline`: the errors of a document, empty when it is accepted. -/
def validatePipeline (order : List String) (unknownFields : List ValidationError)
    (doc : PipelineDefinition) : Option (List ValidationError) :=
  (validatePipelineGraph printable order doc).map fun graph =>
    unknownFields ++ validatePipelineAPIVersion printable doc ++
      validatePipelineKind printable doc ++ validatePipelineMetadata printable doc ++
      validatePipelineSpec printable doc ++ graph

end Rules

end MockAgents.Pipeline
