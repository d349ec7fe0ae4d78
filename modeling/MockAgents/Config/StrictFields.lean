import MockAgents.Lib.Strconv
import MockAgents.Lib.Strings
/-!
# The unknown-field check

`strict_fields.go`: the node graph of a document is walked against the Go type the
document decodes into.  A node is an address among the nodes of the document, and an alias
holds the address of the node it refers to, which may enclose it: an anchor is known before
its contents are read, and aliases are not expanded.  The walk takes a bound on its depth
and is `none` where the bound is reached.
-/

namespace MockAgents.Config

open Lib Lib.Utf8 Lib.Strconv

/-! ## Documents -/

inductive Kind where
  | sequenceNode
  | mappingNode
  | scalarNode
  | aliasNode
deriving DecidableEq

structure Node where
  kind : Kind
  tag : Bytes
  value : Bytes
  line : Nat
  column : Nat
  target : Option Nat
  content : List Nat
deriving DecidableEq

/-- A document node with its content; an alias refers to a node that is no alias itself. -/
structure Document where
  content : List Nat
  nodes : List Node
  alias_anchored : ∀ n ∈ nodes, n.kind = .aliasNode →
    ∃ target m, n.target = some target ∧ nodes[target]? = some m ∧ m.kind ≠ .aliasNode

/-- What a decoder returns call after call: documents, and at the end a syntax error or the
end of the input. -/
structure Stream where
  documents : List Document
  bad : Bool

/-- The libraries the check calls. -/
structure Env where
  stream : Bytes → Stream
  jsonToYAML : Bytes → Option Bytes
  toLower : Bytes → Bytes
  equalFold : Bytes → Bytes → Bool
  printable : Char → Bool

/-- The node a value stands for.  The loop over aliases makes at most one step. -/
def Document.resolve (doc : Document) (a : Nat) : Option Node :=
  (doc.nodes[a]?).bind fun n =>
    if n.kind = .aliasNode then n.target.bind fun target => doc.nodes[target]? else some n

def Document.value (doc : Document) (a : Nat) : Bytes := ((doc.nodes[a]?).map (·.value)).getD []

def pairs : List Nat → List (Nat × Nat)
  | key :: val :: rest => (key, val) :: pairs rest
  | _ => []

/-! ## Types -/

/-- A Go type as the check sees it. -/
inductive GoType where
  /-- interfaces and scalars -/
  | leaf
  /-- a type with an `UnmarshalYAML` -/
  | custom
  | pointer (elem : GoType)
  /-- the fields under their YAML names -/
  | struct (fields : List (Bytes × GoType))
  | map (elem : GoType)
  | slice (elem : GoType)

def GoType.base : GoType → GoType
  | .pointer elem => elem.base
  | t => t

def field (name : String) (t : GoType) : Bytes × GoType := (bytes name, t)

def metadataType : GoType :=
  .struct [field "name" .leaf, field "description" .leaf, field "tags" (.slice .leaf),
    field "tenant_id" .leaf]

def toolErrorType : GoType := .struct [field "code" .leaf, field "message" .leaf]

def toolResponseRuleType : GoType :=
  .struct [field "match" (.map .leaf), field "response" .leaf, field "error" (.pointer toolErrorType),
    field "default" .leaf]

def toolDefinitionType : GoType :=
  .struct [field "name" .leaf, field "description" .leaf, field "parameters" (.map .leaf),
    field "responses" (.slice toolResponseRuleType), field "validate" .leaf, field "error_rate" .leaf]

def matchRuleType : GoType :=
  .struct [field "content_contains" .leaf, field "content_regex" .leaf,
    field "turn_number" (.pointer .leaf), field "has_image" (.pointer .leaf)]

def toolCallSpecType : GoType :=
  .struct [field "name" .leaf, field "arguments" (.map .leaf), field "raw_arguments" .leaf]

def hallucinationSpecType : GoType :=
  .struct [field "type" .leaf, field "ground_truth" .leaf, field "note" .leaf]

def scenarioResponseType : GoType :=
  .struct [field "content" .leaf, field "tool_calls" (.slice toolCallSpecType),
    field "metadata" (.map .leaf), field "finish_reason" .leaf, field "refusal" .leaf,
    field "hallucination" (.pointer hallucinationSpecType)]

def scenarioType : GoType :=
  .struct [field "name" .leaf, field "match" (.pointer matchRuleType),
    field "response" scenarioResponseType]

def streamingConfigType : GoType :=
  .struct [field "enabled" .leaf, field "chunk_size" .leaf, field "chunk_delay_ms" (.pointer .leaf),
    field "ttft_ms" .leaf, field "tokens_per_sec" .leaf, field "jitter_ms" .leaf,
    field "ttft_p50_ms" .leaf, field "ttft_p95_ms" .leaf, field "itl_p50_ms" .leaf,
    field "itl_p95_ms" .leaf, field "truncate_after_chunks" .leaf, field "malformed" .leaf]

def chaosLatencyConfigType : GoType :=
  .struct [field "distribution" .leaf, field "min_ms" .leaf, field "max_ms" .leaf,
    field "mean_ms" .leaf, field "stddev_ms" .leaf]

def chaosErrorConfigType : GoType :=
  .struct [field "rate" .leaf, field "status_code" .leaf, field "status_codes" (.slice .leaf),
    field "timeout" .leaf, field "timeout_ms" .leaf, field "message" .leaf, field "fail_first" .leaf]

def chaosRateLimitConfigType : GoType :=
  .struct [field "requests" .leaf, field "window_ms" .leaf]

def chaosConnectionConfigType : GoType :=
  .struct [field "mode" .leaf, field "rate" .leaf, field "fail_first" .leaf]

def chaosConfigType : GoType :=
  .struct [field "enabled" .leaf, field "preset" .leaf,
    field "latency" (.pointer chaosLatencyConfigType), field "errors" (.pointer chaosErrorConfigType),
    field "rate_limit" (.pointer chaosRateLimitConfigType),
    field "connection" (.pointer chaosConnectionConfigType)]

def strictToolsConfigType : GoType :=
  .struct [field "level" .leaf, field "ids" (.pointer .leaf), field "tool_choice" (.pointer .leaf),
    field "schemas" (.pointer .leaf)]

def behaviorConfigType : GoType :=
  .struct [field "scenarios" (.slice scenarioType), field "streaming" (.pointer streamingConfigType),
    field "chaos" (.pointer chaosConfigType), field "strict_tools" (.pointer strictToolsConfigType)]

def agentSpecType : GoType :=
  .struct [field "protocol" .leaf, field "model" .leaf, field "systemPrompt" .leaf,
    field "tools" (.slice toolDefinitionType), field "behavior" behaviorConfigType]

def agentDefinitionType : GoType :=
  .struct [field "apiVersion" .leaf, field "kind" .leaf, field "metadata" metadataType,
    field "spec" agentSpecType]

/-! ## Errors -/

structure ValidationError where
  file : Bytes
  line : Nat
  column : Nat
  field : Bytes
  message : Bytes
  suggestion : Bytes
deriving DecidableEq

def joinPath (path name : Bytes) : Bytes := if path = [] then name else path ++ bytes "." ++ name

/-- `[]rune(s)`: a byte outside valid UTF-8 becomes the replacement character. -/
def runeValues (s : Bytes) : List Char :=
  (runes s).map fun
    | .char c => c
    | .bad _ => '�'

/-- One row of the table of `editDistance`, from its first entry and the row above. -/
def editRow (a : Char) : List Char → List Nat → Nat → List Nat
  | b :: rb, diag :: up :: prev, left =>
    let v := min (min (up + 1) (left + 1)) (diag + if a = b then 0 else 1)
    left :: editRow a rb (up :: prev) v
  | _, _, left => [left]

def editDistance (a b : Bytes) : Nat :=
  let rb := runeValues b
  let row := (runeValues a).zipIdx.foldl (fun prev e => editRow e.1 rb prev (e.2 + 1))
    (List.range (rb.length + 1))
  row.getLastD 0

/-- The loop of `closestName`, with the best candidate so far and its distance. -/
def closestFrom (env : Env) (name : Bytes) : List Bytes → Bytes × Nat → Bytes
  | [], best => best.1
  | c :: candidates, best =>
    if env.equalFold c name then c
    else
      let d := editDistance (env.toLower name) (env.toLower c)
      closestFrom env name candidates (if d < best.2 then (c, d) else best)

def closestName (env : Env) (name : Bytes) (candidates : List Bytes) : Bytes :=
  closestFrom env name candidates ([], 3)

def unknownFieldError (env : Env) (doc : Document) (file : Bytes) (key : Nat) (path : Bytes)
    (fields : List (Bytes × GoType)) : ValidationError :=
  let known := (fields.map (·.1)).mergeSort fun a b => decide (a ≤ b)
  let best := closestName env (doc.value key) known
  { file
    line := ((doc.nodes[key]?).map (·.line)).getD 0
    column := ((doc.nodes[key]?).map (·.column)).getD 0
    field := path
    message := bytes "unknown field " ++ bytes (quote env.printable (doc.value key))
    suggestion :=
      if best ≠ [] then bytes "Did you mean " ++ bytes (quote env.printable best) ++ bytes "?"
      else if 0 < known.length ∧ known.length ≤ 12 then
        bytes "Supported fields here: " ++ Strings.join known (bytes ", ") ++ bytes "."
      else bytes "Remove the field, or check its spelling against the schema." }

/-! ## The walk -/

def mergeKey : Bytes := bytes "<<"

def walkUnknownFields (env : Env) (doc : Document) (file : Bytes) :
    Nat → Nat → GoType → Bytes → List ValidationError → Option (List ValidationError)
  | 0, _, _, _, _ => none
  | depth + 1, a, t, path, errs =>
    match doc.resolve a, t.base with
    | some node, .struct fields =>
      if node.kind ≠ .mappingNode then some errs
      else (pairs node.content).foldlM (fun errs e =>
        if doc.value e.1 = mergeKey then
          walkUnknownFields env doc file depth e.2 (.struct fields) path errs
        else
          match fields.lookup (doc.value e.1) with
          | none =>
            some (errs ++
              [unknownFieldError env doc file e.1 (joinPath path (doc.value e.1)) fields])
          | some ft =>
            walkUnknownFields env doc file depth e.2 ft (joinPath path (doc.value e.1)) errs) errs
    | some node, .map elem =>
      if node.kind ≠ .mappingNode then some errs
      else (pairs node.content).foldlM (fun errs e =>
        walkUnknownFields env doc file depth e.2 elem (joinPath path (doc.value e.1)) errs) errs
    | some node, .slice elem =>
      if node.kind ≠ .sequenceNode then some errs
      else node.content.zipIdx.foldlM (fun errs e =>
        walkUnknownFields env doc file depth e.1 elem
          (path ++ bytes "[" ++ bytes (toString e.2) ++ bytes "]") errs) errs
    | _, _ => some errs

/-- The branch of the walk for a document node, which is only the root. -/
def unknownFieldErrors (env : Env) (doc : Document) (file : Bytes) (depth : Nat) (target : GoType) :
    Option (List ValidationError) :=
  doc.content.foldlM (fun errs c => walkUnknownFields env doc file depth c target [] errs) []

/-! ## The check -/

def looksLikeJSON : Bytes → Bool
  | [] => false
  | b :: rest =>
    if b ∈ bytes " \t\n\r" then looksLikeJSON rest
    else decide (b ∈ bytes "\x7b[")

inductive ParseError where
  | invalid
  | multipleDocuments (line : Nat)

def splitLines (data : Bytes) : List Bytes := data.splitOn 10

/-- `strings.TrimRight(line, "\r \t")`. -/
def trimLine (line : Bytes) : Bytes := (line.reverse.dropWhile (· ∈ bytes "\r \t")).reverse

def secondDocumentLine (data : Bytes) (contentLine : Nat) : Nat :=
  let lines := splitLines data
  match (List.range (min (contentLine - 1) lines.length)).reverse.find? fun i =>
      (bytes "---").isPrefixOf (trimLine ((lines[i]?).getD [])) with
  | some i => i + 1
  | none => contentLine

/-- The first node of a document that is more than an empty one. -/
def Document.heading (doc : Document) : Option Node :=
  (doc.content.head?.bind fun a => doc.nodes[a]?).filter fun n =>
    !(decide (n.kind = .scalarNode) && decide (n.tag = bytes "!!null"))

/-- `none` is the node of an input with no document. -/
def parseSingleDocument (env : Env) (data : Bytes) : Except ParseError (Option Document) :=
  match (env.stream data).documents with
  | [] => if (env.stream data).bad then .error .invalid else .ok none
  | doc :: rest =>
    match rest.findSome? Document.heading with
    | some n => .error (.multipleDocuments (secondDocumentLine data n.line))
    | none => if (env.stream data).bad then .error .invalid else .ok (some doc)

def multipleDocumentsError (line : Nat) : ValidationError :=
  { file := [], line, column := 0, field := bytes "document"
    message := bytes ("line " ++ toString line ++
      ": a second YAML document starts here; put each definition in its own file")
    suggestion := [] }

/-- The document `UnknownAgentFields` walks, or the errors it returns without one. -/
def agentDocument (env : Env) (data : Bytes) : Except (List ValidationError) Document :=
  match (if looksLikeJSON data then env.jsonToYAML data else some data) with
  | none => .error []
  | some data =>
    match parseSingleDocument env data with
    | .error (.multipleDocuments line) => .error [multipleDocumentsError line]
    | .error .invalid => .error []
    | .ok none => .error []
    | .ok (some doc) => .ok doc

def unknownAgentFields (env : Env) (depth : Nat) (data : Bytes) : Option (List ValidationError) :=
  match agentDocument env data with
  | .error errs => some errs
  | .ok doc => unknownFieldErrors env doc [] depth (.pointer agentDefinitionType)

end MockAgents.Config
