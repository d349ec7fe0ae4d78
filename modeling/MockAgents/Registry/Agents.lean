import MockAgents.Lib.Maps
import MockAgents.Lib.Strconv
/-!
# The agent registry

`agent_registry.go`: the agents by owner and name, the two model indexes and the
backing files, with the writes that keep them in step and the reads of one tenant.
A loop over a Go map runs in any order, which every function takes as an argument.
Strings are compared by code points, which is Go's order of bytes on UTF-8 text.
-/

namespace MockAgents.Registry

open Lib Lib.Maps

/-- A pointer to a definition, with the fields the registry reads.  Definitions are not
changed once they are registered, so two pointers are equal when these values are. -/
structure AgentDefinition where
  addr : Nat
  tenantID : String
  name : String
  model : String
deriving DecidableEq, Repr

structure AgentRegistry where
  /-- owner tenant, name -/
  agents : Table String String AgentDefinition
  /-- the most recent agent of a model -/
  byModel : AList fun _ : String => AgentDefinition
  /-- model, owner tenant -/
  byModelTenant : Table String String AgentDefinition
  /-- owner tenant, name -/
  sources : Table String String String

def newAgentRegistry : AgentRegistry := ⟨∅, ∅, ∅, ∅⟩

inductive Warning where
  | nameClaimed (agent loaded shadowed : String)
  | modelClaimed (model : String) (agents : List String) (wins : String)
deriving DecidableEq, Repr

/-- An owner and a name, as `OnAgentChange` is told. -/
abbrev Change := String × String

/-- The orders of the loops of one write: the rebuild of every model has its own, and
the other loops run in that of the empty model. -/
abbrev Loops := String → Shuffle

namespace AgentRegistry

/-! ## Writes -/

/-- The body of the loops of `rebuildModelBucket`. -/
def claimModel (model owner : String) (owners : AList fun _ : String => AgentDefinition)
    (agent : AgentDefinition) : AList fun _ : String => AgentDefinition :=
  if agent.model ≠ model then owners
  else
    match owners.lookup owner with
    | none => owners.insert owner agent
    | some cur => if agent.name < cur.name then owners.insert owner agent else owners

def rebuildModelBucket (sh : Shuffle) (r : AgentRegistry) (model : String) : AgentRegistry :=
  if model = "" then r
  else
    let owners := (sh.list r.agents.entries).foldl
      (fun owners bucket => (sh.list bucket.2.entries).foldl
        (fun owners agent => claimModel model bucket.1 owners agent.2) owners) ∅
    if owners.keys = [] then { r with byModelTenant := r.byModelTenant.erase model }
    else { r with byModelTenant := r.byModelTenant.insert model owners }

def unclaimModel (byModel : AList fun _ : String => AgentDefinition) (agent : AgentDefinition) :
    AList fun _ : String => AgentDefinition :=
  if agent.model ≠ "" && byModel.lookup agent.model = some agent then byModel.erase agent.model
  else byModel

/-- Two files claim one name. -/
def nameWarning (prev : Option AgentDefinition) (prevSrc sourcePath name : String) : List Warning :=
  if prev.isSome && prevSrc ≠ "" && sourcePath ≠ "" && prevSrc ≠ sourcePath then
    [.nameClaimed name sourcePath prevSrc]
  else []

/-- Two agents claim one model. -/
def modelWarning (claimed : Option AgentDefinition) (model name : String) : List Warning :=
  match claimed with
  | none => []
  | some prev =>
    if prev.name ≠ name then [.modelClaimed model [prev.name, name] (min prev.name name)] else []

def registerLocked (sh : Loops) (r : AgentRegistry) (agent : AgentDefinition) (sourcePath : String) :
    AgentRegistry × List Warning :=
  let owner := agent.tenantID
  let name := agent.name
  let prev := r.agents.get owner name
  let nameClaimed := nameWarning prev ((r.sources.get owner name).getD "") sourcePath name
  let oldModel := (prev.map (·.model)).getD ""
  let byModel :=
    match prev with
    | none => r.byModel
    | some prev => unclaimModel r.byModel prev
  let modelClaimed :=
    if agent.model ≠ "" then modelWarning (byModel.lookup agent.model) agent.model name else []
  let r :=
    { r with
      agents := r.agents.put owner name agent
      byModel := if agent.model ≠ "" then byModel.insert agent.model agent else byModel }
  let r := r.rebuildModelBucket (sh agent.model) agent.model
  let r :=
    if oldModel ≠ "" && oldModel ≠ agent.model then r.rebuildModelBucket (sh oldModel) oldModel else r
  let r := if sourcePath ≠ "" then { r with sources := r.sources.put owner name sourcePath } else r
  (r, nameClaimed ++ modelClaimed)

/-- `RegisterWithSource`; a nil definition is ignored. -/
def registerWithSource (sh : Loops) (r : AgentRegistry) (agent : Option AgentDefinition)
    (sourcePath : String) : AgentRegistry × List Warning × List Change :=
  match agent with
  | none => (r, [], [])
  | some agent =>
    let (r, warnings) := r.registerLocked sh agent sourcePath
    (r, warnings, [(agent.tenantID, agent.name)])

def register (sh : Loops) (r : AgentRegistry) (agent : Option AgentDefinition) :
    AgentRegistry × List Warning × List Change :=
  r.registerWithSource sh agent ""

/-- The part of a removal that both removals share: the agent leaves all but the
tenant index. -/
def removeAgent (r : AgentRegistry) (owner : String) (agent : AgentDefinition) (name : String) :
    AgentRegistry :=
  { r with
    byModel := unclaimModel r.byModel agent
    agents := r.agents.delete owner name
    sources := r.sources.delete owner name }

/-- The loop of `Remove` over the owners. -/
structure Sweep where
  registry : AgentRegistry
  models : List String
  removed : List Change

def sweepOwner (name : String) (st : Sweep) (bucket : Σ _ : String, AList fun _ : String => AgentDefinition) :
    Sweep :=
  match bucket.2.lookup name with
  | none => st
  | some agent =>
    { registry := st.registry.removeAgent bucket.1 agent name
      models := if agent.model ≠ "" then st.models.insert agent.model else st.models
      removed := st.removed ++ [(bucket.1, name)] }

/-- `%q` of an argument. -/
def quoted (printable : Char → Bool) (s : String) : String := Strconv.quote printable (Utf8.bytes s)

def remove (printable : Char → Bool) (sh : Loops) (r : AgentRegistry) (name : String) :
    Except String (AgentRegistry × List Change) :=
  let st := ((sh "").list r.agents.entries).foldl (sweepOwner name) ⟨r, [], []⟩
  if st.removed = [] then .error ("agent " ++ quoted printable name ++ " not found")
  else
    .ok (((sh "").list st.models).foldl (fun r model => r.rebuildModelBucket (sh model) model) st.registry,
      st.removed)

def removeForTenant (printable : Char → Bool) (sh : Loops) (r : AgentRegistry)
    (name tenantID : String) : Except String (AgentRegistry × List Change) :=
  match r.agents.get tenantID name with
  | none =>
    .error ("agent " ++ quoted printable name ++ " not found for tenant " ++
      quoted printable tenantID)
  | some agent =>
    .ok ((r.removeAgent tenantID agent name).rebuildModelBucket (sh agent.model) agent.model,
      [(tenantID, name)])

/-! ## Reads -/

def getForTenant (r : AgentRegistry) (name tenantID : String) : Option AgentDefinition :=
  match r.agents.get tenantID name with
  | some agent => some agent
  | none => if tenantID ≠ "" then r.agents.get "" name else none

def getByModel (r : AgentRegistry) (model : String) : Option AgentDefinition := r.byModel.lookup model

def getByModelForTenant (r : AgentRegistry) (model tenantID : String) : Option AgentDefinition :=
  match r.byModelTenant.lookup model with
  | none => none
  | some owners =>
    match owners.lookup tenantID with
    | some agent => some agent
    | none => owners.lookup ""

def bucket (r : AgentRegistry) (owner : String) : AList fun _ : String => AgentDefinition :=
  (r.agents.lookup owner).getD ∅

def enterAll (sh : Shuffle) (bucket merged : AList fun _ : String => AgentDefinition) :
    AList fun _ : String => AgentDefinition :=
  (sh.list bucket.entries).foldl (fun merged agent => merged.insert agent.1 agent.2) merged

def mergedForTenant (sh : Shuffle) (r : AgentRegistry) (tenantID : String) :
    AList fun _ : String => AgentDefinition :=
  let merged := enterAll sh (r.bucket "") ∅
  if tenantID ≠ "" then enterAll sh (r.bucket tenantID) merged else merged

def listForTenant (sh : Shuffle) (r : AgentRegistry) (tenantID : String) : List AgentDefinition :=
  ((sh.list (r.mergedForTenant sh tenantID).entries).map (·.2)).mergeSort
    fun a b => decide (a.name ≤ b.name)

def listNamesForTenant (sh : Shuffle) (r : AgentRegistry) (tenantID : String) : List String :=
  ((sh.list (r.mergedForTenant sh tenantID).entries).map (·.1)).mergeSort fun a b => decide (a ≤ b)

end AgentRegistry

/-! ## Resolving a request -/

/-- The fields of a request that choose its agent. -/
structure InboundRequest where
  agentName : String
  model : String
deriving DecidableEq, Repr

def listText (names : List String) : String := "[" ++ String.intercalate " " names ++ "]"

/-- The single visible agent, which only an anonymous caller falls back to. -/
def onlyAgent (sh : Shuffle) (r : AgentRegistry) (tenantID : String) : Option AgentDefinition :=
  if tenantID = "" then
    match r.listForTenant sh "" with
    | [agent] => some agent
    | _ => none
  else none

def resolveAgentForTenant (printable : Char → Bool) (sh : Shuffle) (r : AgentRegistry)
    (req : InboundRequest) (tenantID : String) : Except String AgentDefinition :=
  let byName := if req.agentName ≠ "" then r.getForTenant req.agentName tenantID else none
  let byModel := if req.model ≠ "" then r.getByModelForTenant req.model tenantID else none
  match byName <|> byModel <|> onlyAgent sh r tenantID with
  | some agent => .ok agent
  | none =>
    let identifier := if req.agentName = "" then req.model else req.agentName
    .error ("agent not found: " ++ AgentRegistry.quoted printable identifier ++ " (available: " ++
      listText (r.listNamesForTenant sh tenantID) ++ ")")

/-! ## Operations -/

inductive Op where
  | register (agent : Option AgentDefinition)
  | registerWithSource (agent : Option AgentDefinition) (sourcePath : String)
  | remove (name : String)
  | removeForTenant (name tenantID : String)
deriving DecidableEq, Repr

def AgentRegistry.step (printable : Char → Bool) (r : AgentRegistry) (op : Op × Loops) :
    AgentRegistry :=
  match op.1 with
  | .register agent => (r.register op.2 agent).1
  | .registerWithSource agent path => (r.registerWithSource op.2 agent path).1
  | .remove name => ((r.remove printable op.2 name).toOption.map (·.1)).getD r
  | .removeForTenant name tenantID =>
    ((r.removeForTenant printable op.2 name tenantID).toOption.map (·.1)).getD r

def AgentRegistry.run (printable : Char → Bool) (r : AgentRegistry) (ops : List (Op × Loops)) :
    AgentRegistry :=
  ops.foldl (AgentRegistry.step printable) r

end MockAgents.Registry
