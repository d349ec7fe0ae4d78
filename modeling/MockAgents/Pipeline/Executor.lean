import MockAgents.Pipeline.Definition
/-!
# The pipeline executor

`PipelineExecutor.RunContext` of `internal/engine/pipeline.go` with its three
topologies.  A node invocation is an arbitrary function of the node and its
input that yields the response content or an error.  The recursive `settle`
closure and the peeling loop of `cyclicNodes` take fuel; `none` stands for
running out of it and is shown to be unreachable in `Proofs`.
-/

namespace MockAgents.Pipeline

open Lib

/-- `NodeResult`: one agent invocation; the response is kept as its content. -/
structure NodeResult where
  nodeID : String
  agentName : String
  response : Option Bytes
deriving DecidableEq, Repr

/-- What the recorder is told about the same invocation: the result and the
input the node was given. -/
structure NodeInteraction extends NodeResult where
  input : Bytes
deriving DecidableEq, Repr

/-- The errors of a run.  `node` carries the error of an invocation. -/
inductive RunError (ε : Type) where
  | noAgents
  | unknownTopology (name : String)
  | pipelineCycle (nodes : List String)
  | unknownNode (pipeline node : String)
  | node (err : ε)
  | joined (errs : List ε)
deriving DecidableEq, Repr

section Graph

variable (spec : PipelineSpec)

/-- The `nodesByID` map: a repeated id keeps its last declaration. -/
def nodesByID : String → Option PipelineAgent :=
  spec.agents.foldl (fun m n => Function.update m n.id (some n)) (fun _ => none)

/-- The `outgoing` map: the edges of a source in definition order. -/
def outgoing : String → List PipelineEdge :=
  spec.edges.foldl
    (fun m e => Function.update m e.fromID (m e.fromID ++ [e])) (fun _ => [])

/-- The `indegree` map: inbound edges between two distinct known nodes. -/
def indegree : String → Int :=
  spec.edges.foldl
    (fun m e =>
      if e.fromID = e.toID then m
      else if (nodesByID spec e.fromID).isSome && (nodesByID spec e.toID).isSome then
        Function.update m e.toID (m e.toID + 1)
      else m)
    (fun _ => 0)

end Graph

/-! ## Cycle rejection -/

/-- The working copy `remaining` of the indegree map: its live keys and their
counts. -/
structure Remaining where
  keys : List String
  count : String → Int

/-- The inner loop of `cyclicNodes`: lower the successors of a peeled node and
queue those that reach zero. -/
def relax : List PipelineEdge → List String → Remaining → List String × Remaining
  | [], queue, rem => (queue, rem)
  | e :: es, queue, rem =>
    if e.fromID = e.toID then relax es queue rem
    else if e.toID ∉ rem.keys then relax es queue rem
    else
      let rem := { rem with
        count := Function.update rem.count e.toID (rem.count e.toID - 1) }
      let queue := if rem.count e.toID = 0 then queue ++ [e.toID] else queue
      relax es queue rem

/-- The peeling loop: take the queue's head, delete it and relax its edges. -/
def peel (out : String → List PipelineEdge) :
    Nat → List String → Remaining → Option Remaining
  | _, [], rem => some rem
  | 0, _ :: _, _ => none
  | fuel + 1, id :: queue, rem =>
    let rem := { rem with keys := rem.keys.erase id }
    let next := relax (out id) queue rem
    peel out fuel next.1 next.2

/-- The final loop of `cyclicNodes`: the ids left over, in definition order. -/
def leftover : List PipelineAgent → List String → List String
  | [], _ => []
  | n :: ns, keys =>
    if n.id ∈ keys then n.id :: leftover ns (keys.erase n.id)
    else leftover ns keys

/-- `cyclicNodes`; `order` is the order in which `range` yields the keys of the
indegree map. -/
def cyclicNodes (order : List String) (agents : List PipelineAgent)
    (out : String → List PipelineEdge) (indeg : String → Int) :
    Option (List String) :=
  let queue := order.filter fun id => indeg id = 0
  match peel out (order.length + 1) queue ⟨order, indeg⟩ with
  | none => none
  | some rem => some (if rem.keys.isEmpty then [] else leftover agents rem.keys)

/-! ## The walk -/

/-- The variables `settle` closes over, with the run's results so far. -/
structure Walk where
  waiting : String → Int
  inputs : String → List Bytes
  settled : String → Bool
  recorded : List NodeInteraction

/-- The separator of a join's parent outputs: a blank line. -/
def blankLine : Bytes := [10, 10]

section Settle

variable {ε : Type} (pipeline : String) (spec : PipelineSpec)
  (invokeNode : PipelineAgent → Bytes → Except ε Bytes) (userMsg : Bytes)

/-- The edge loop at the end of `settle`, over the recursive call `settle`.
`fed` holds the targets this node's output was already passed to. -/
def walkEdges (settle : String → Walk → Option (Walk × Option (RunError ε)))
    (ran : Bool) (content : Bytes) :
    List PipelineEdge → List String → Walk → Option (Walk × Option (RunError ε))
  | [], _, w => some (w, none)
  | e :: es, fed, w =>
    if e.fromID = e.toID then walkEdges settle ran content es fed w
    else
      let fires := ran && e.fires content
      if (nodesByID spec e.toID).isNone then
        if fires then some (w, some (.unknownNode pipeline e.toID))
        else walkEdges settle ran content es fed w
      else
        -- two guarded edges to the same node pass this output once
        let feed := fires && !fed.contains e.toID
        let fed := if feed then e.toID :: fed else fed
        let inputs := if feed then
          Function.update w.inputs e.toID (w.inputs e.toID ++ [content]) else w.inputs
        let w := { w with
          inputs := inputs
          waiting := Function.update w.waiting e.toID (w.waiting e.toID - 1) }
        if w.waiting e.toID = 0 then
          match settle e.toID w with
          | none => none
          | some (w, some err) => some (w, some err)
          | some (w, none) => walkEdges settle ran content es fed w
        else walkEdges settle ran content es fed w

/-- The part of `settle` that runs the node: whether it ran, its content, and
the walk with the invocation recorded. -/
def runNode (id : String) (w : Walk) : Walk × Except ε (Bool × Bytes) :=
  let ran := indegree spec id == 0 || !(w.inputs id).isEmpty
  if ran then
    let input := if indegree spec id > 0 then
      Strings.join (w.inputs id) blankLine else userMsg
    -- an undeclared id would read the map's zero value; `settle` never sees one
    let node := (nodesByID spec id).getD ⟨"", ""⟩
    match invokeNode node input with
    | .ok content =>
      ({ w with recorded := w.recorded ++ [⟨⟨node.id, node.ref, some content⟩, input⟩] },
        .ok (true, content))
    | .error err =>
      ({ w with recorded := w.recorded ++ [⟨⟨node.id, node.ref, none⟩, input⟩] }, .error err)
  else (w, .ok (false, []))

/-- The `settle` closure of `runGraph`. -/
def settle : Nat → String → Walk → Option (Walk × Option (RunError ε))
  | 0, _, _ => none
  | fuel + 1, id, w =>
    if w.settled id then some (w, none)
    else
      match runNode spec invokeNode userMsg id
          { w with settled := Function.update w.settled id true } with
      | (w, .error err) => some (w, some (.node err))
      | (w, .ok (ran, content)) =>
        walkEdges pipeline spec (settle fuel) ran content (outgoing spec id) [] w

/-- The final loop of `runGraph`: settle from every root in definition order. -/
def settleRoots (settle : String → Walk → Option (Walk × Option (RunError ε))) :
    List PipelineAgent → Walk → Option (Walk × Option (RunError ε))
  | [], w => some (w, none)
  | n :: ns, w =>
    if indegree spec n.id = 0 then
      match settle n.id w with
      | none => none
      | some (w, some err) => some (w, some err)
      | some (w, none) => settleRoots settle ns w
    else settleRoots settle ns w

def Walk.start : Walk where
  waiting := indegree spec
  inputs := fun _ => []
  settled := fun _ => false
  recorded := []

/-- `runGraph`: the interactions of the run, in order, and its error. -/
def runGraph (order : List String) : Option (List NodeInteraction × Option (RunError ε)) :=
  match cyclicNodes order spec.agents (outgoing spec) (indegree spec) with
  | none => none
  | some [] =>
    (settleRoots spec
        (settle pipeline spec invokeNode userMsg (spec.agents.length + 1))
        spec.agents (Walk.start spec)).map
      fun p => (p.1.recorded, p.2)
  | some cyclic => some ([], some (.pipelineCycle cyclic))

/-! ## The other topologies -/

/-- `runSequential`: each node's content is the next node's input. -/
def runSequential :
    List PipelineAgent → Bytes → List NodeInteraction × Option (RunError ε)
  | [], _ => ([], none)
  | node :: rest, input =>
    match invokeNode node input with
    | .error err => ([⟨⟨node.id, node.ref, none⟩, input⟩], some (.node err))
    | .ok content =>
      let tail := runSequential rest content
      (⟨⟨node.id, node.ref, some content⟩, input⟩ :: tail.1, tail.2)

/-- `runParallel`: every node sees the user message; the errors are joined. -/
def runParallel (agents : List PipelineAgent) :
    List NodeInteraction × Option (RunError ε) :=
  let results := agents.map fun node => (node, invokeNode node userMsg)
  let errs := results.filterMap fun r =>
    match r.2 with
    | .error err => some err
    | .ok _ => none
  (results.map fun r => ⟨⟨r.1.id, r.1.ref, r.2.toOption⟩, userMsg⟩,
    if errs.isEmpty then none else some (.joined errs))

end Settle

/-- `FinalResponse`: the last response a run produced. -/
def finalResponse (nodes : List NodeInteraction) : Option Bytes :=
  nodes.reverse.findSome? (·.response)

def runContext {ε : Type} (order : List String) (doc : PipelineDefinition)
    (invokeNode : PipelineAgent → Bytes → Except ε Bytes) (userMsg : Bytes) :
    Option (List NodeInteraction × Option (RunError ε)) :=
  if doc.spec.agents.isEmpty then some ([], some .noAgents)
  else
    match doc.spec.topology with
    | .sequential | .unset => some (runSequential invokeNode doc.spec.agents userMsg)
    | .parallel => some (runParallel invokeNode userMsg doc.spec.agents)
    | .graph => runGraph doc.name doc.spec invokeNode userMsg order
    | .other name => some ([], some (.unknownTopology name))

end MockAgents.Pipeline
