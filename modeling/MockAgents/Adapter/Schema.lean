import MockAgents.Lib.JsonValue
import MockAgents.Lib.Maps
import MockAgents.Realtime.Types
/-!
# Values from a JSON schema

`structured_output.go`: a minimal value for a schema, by a walk with a depth limit and a
budget.  The recursion is on the levels left until the depth limit; the state counts, next
to the budget, the calls of `synth` and the branches `collectAllOfProps` examines.  A loop
over a map takes its members in any order.
-/

namespace MockAgents.Adapter

open Lib Lib.Maps Lib.Utf8 Lib.JsonValue Realtime

def maxSynthDepth : Nat := 12
def maxSynthArrayItems : Int := 5
def maxSynthNodes : Nat := 5000

/-- A number in an `any`: an integer of Go, or a float. -/
inductive GoNumber (F : Type) where
  | int (n : Int)
  | float (x : F)

class GoMath (F : Type) extends GoFloat F where
  ceil : F → F
  floor : F → F
  isFinite : F → Bool

section
variable {F : Type}

abbrev Schema (F : Type) := Object (GoNumber F)

def extractDefs (schema : Schema F) : Schema F :=
  match get schema "$defs" with
  | some (.object d) => d
  | _ =>
    match get schema "definitions" with
    | some (.object d) => d
    | _ => []

def refName (ref : Bytes) : Bytes :=
  if (bytes "#/$defs/").isPrefixOf ref then ref.drop (bytes "#/$defs/").length
  else if (bytes "#/definitions/").isPrefixOf ref then ref.drop (bytes "#/definitions/").length
  else ref

def resolveRef (ref : Bytes) (defs : Schema F) : Option (Schema F) :=
  (defs.lookup (refName ref)).bind object?

def firstType : List (JsonValue (GoNumber F)) → Bytes
  | [] => bytes "null"
  | .string s :: rest => if s = bytes "null" then firstType rest else s
  | _ :: rest => firstType rest

def typeOf (schema : Schema F) : Bytes :=
  match get schema "type" with
  | some (.string t) => t
  | some (.array types) => firstType types
  | _ =>
    if (get schema "properties").isSome then bytes "object"
    else if (get schema "items").isSome then bytes "array"
    else []

/-! ## Scalars -/

section
variable [GoMath F]

def toFloat64 : Option (JsonValue (GoNumber F)) → Option F
  | some (.number (.float x)) => some x
  | some (.number (.int n)) => some (GoFloat.ofInt n)
  | _ => none

def bound (schema : Schema F) (key : String) : Option F :=
  (toFloat64 (get schema key)).filter GoMath.isFinite

def clampMaxInt (v : Int) (schema : Schema F) : Int :=
  match (bound schema "maximum").filter fun mx => GoFloat.lt mx (GoFloat.ofInt v) with
  | some mx => GoFloat.toInt (GoMath.floor mx)
  | none =>
    match (bound schema "exclusiveMaximum").filter fun mx => GoFloat.le mx (GoFloat.ofInt v) with
    | some mx => GoFloat.toInt (GoMath.ceil mx) - 1
    | none => v

def lowerBoundInt (schema : Schema F) : Option Int :=
  match bound schema "minimum" with
  | some m => some (clampMaxInt (GoFloat.toInt (GoMath.ceil m)) schema)
  | none =>
    (bound schema "exclusiveMinimum").map fun m =>
      clampMaxInt (GoFloat.toInt (GoMath.floor m) + 1) schema

def lowerBoundNum (schema : Schema F) : Option F :=
  match bound schema "minimum" with
  | some m => some m
  | none => (bound schema "exclusiveMinimum").map fun m => GoFloat.add m (GoFloat.ofInt 1)

def formatText (format : Bytes) : String :=
  if format = bytes "date-time" then "2024-01-01T00:00:00Z"
  else if format = bytes "date" then "2024-01-01"
  else if format = bytes "time" then "00:00:00"
  else if format = bytes "email" then "user@example.com"
  else if format = bytes "uri" ∨ format = bytes "url" then "https://example.com"
  else if format = bytes "uuid" then "00000000-0000-4000-8000-000000000000"
  else ""

def synthString (schema : Schema F) : Bytes :=
  match get schema "format" with
  | some (.string f) => bytes (formatText f)
  | _ => []

def synthScalar (schema : Schema F) : JsonValue (GoNumber F) :=
  if typeOf schema = bytes "string" then .string (synthString schema)
  else if typeOf schema = bytes "integer" then .number (.int ((lowerBoundInt schema).getD 0))
  else if typeOf schema = bytes "number" then
    .number (.float ((lowerBoundNum schema).getD (GoFloat.ofInt 0)))
  else if typeOf schema = bytes "boolean" then .bool false
  else .null

def zeroForSchema (defs schema : Schema F) : JsonValue (GoNumber F) :=
  let schema :=
    match get schema "$ref" with
    | some (.string ref) => (resolveRef ref defs).getD schema
    | _ => schema
  if typeOf schema = bytes "object" then .object []
  else if typeOf schema = bytes "array" then .array []
  else if typeOf schema = bytes "string" then .string []
  else if typeOf schema = bytes "integer" then .number (.int 0)
  else if typeOf schema = bytes "number" then .number (.float (GoFloat.ofInt 0))
  else if typeOf schema = bytes "boolean" then .bool false
  else .null

end

/-! ## allOf -/

def branchSchema (defs : Schema F) (b : JsonValue (GoNumber F)) : Option (Schema F) :=
  match b with
  | .object sub =>
    match get sub "$ref" with
    | some (.string ref) => resolveRef ref defs
    | _ => some sub
  | _ => none

def addProperties (dst sub : Schema F) : Schema F :=
  match get sub "properties" with
  | some (.object p) => setAll dst p
  | _ => dst

/-- One branch in the loop of `collectAllOfProps`; the second component counts the branches. -/
def collectBranch (defs : Schema F)
    (collect : List (JsonValue (GoNumber F)) → Schema F × Nat → Schema F × Nat) (acc : Schema F × Nat)
    (b : JsonValue (GoNumber F)) : Schema F × Nat :=
  match branchSchema defs b with
  | none => (acc.1, acc.2 + 1)
  | some sub =>
    match get sub "allOf" with
    | some (.array nested) => collect nested (addProperties acc.1 sub, acc.2 + 1)
    | _ => (addProperties acc.1 sub, acc.2 + 1)

/-- `collectAllOfProps` with the levels left before its depth limit. -/
def collectAllOfProps (defs : Schema F) :
    Nat → List (JsonValue (GoNumber F)) → Schema F × Nat → Schema F × Nat
  | 0, _, acc => acc
  | levels + 1, branches, acc =>
    branches.foldl (collectBranch defs (collectAllOfProps defs levels)) acc

/-! ## The walk -/

structure SynthState where
  budget : Int
  /-- the calls of `synth` -/
  calls : Nat
  /-- the branches examined by `collectAllOfProps` -/
  branches : Nat

/-- One value for each schema until the budget is used up; `nil` where there is no schema. -/
def synthEach (synth : Schema F → SynthState → JsonValue (GoNumber F) × SynthState) :
    List (Option (Schema F)) → SynthState → List (JsonValue (GoNumber F)) × SynthState
  | [], st => ([], st)
  | none :: rest, st =>
    if st.budget ≤ 0 then ([], st)
    else
      let rs := synthEach synth rest st
      (.null :: rs.1, rs.2)
  | some schema :: rest, st =>
    if st.budget ≤ 0 then ([], st)
    else
      let r := synth schema st
      let rs := synthEach synth rest r.2
      (r.1 :: rs.1, rs.2)

def synthObject (sh : Shuffle)
    (synth : Schema F → SynthState → JsonValue (GoNumber F) × SynthState) (props : Schema F)
    (st : SynthState) : JsonValue (GoNumber F) × SynthState :=
  let entries := sh.list props
  let rs := synthEach synth (entries.map fun e => e.2.object?) st
  (.object ((entries.map (·.1)).zip rs.1), rs.2)

def tupleItems (schema : Schema F) : Option (List (JsonValue (GoNumber F))) :=
  match get schema "prefixItems" with
  | some (.array (p :: items)) => some (p :: items)
  | _ =>
    match get schema "items" with
    | some (.array (p :: items)) => some (p :: items)
    | _ => none

section
variable [GoMath F]

def arrayLength (schema : Schema F) : Nat :=
  let n : Int :=
    match toFloat64 (get schema "minItems") with
    | some mi => max 1 (GoFloat.toInt mi)
    | none => 1
  (min n maxSynthArrayItems).toNat

def synthArray (synth : Schema F → SynthState → JsonValue (GoNumber F) × SynthState)
    (schema : Schema F) (st : SynthState) : JsonValue (GoNumber F) × SynthState :=
  match tupleItems schema with
  | some tuple =>
    let rs := synthEach synth (tuple.map object?) st
    (.array rs.1, rs.2)
  | none =>
    match get schema "items" with
    | some (.object items) =>
      let rs := synthEach synth (List.replicate (arrayLength schema) (some items)) st
      (.array rs.1, rs.2)
    | _ => (.array [], st)

/-- The first branch of an `anyOf` or `oneOf`, if it is a schema. -/
def firstBranch (schema : Schema F) (key : String) : Option (Schema F) :=
  match get schema key with
  | some (.array (first :: _)) => first.object?
  | _ => none

/-- What does not change during a walk. -/
structure SynthCtx (F : Type) where
  defs : Schema F
  /-- the order of a loop over a map, by the calls made so far -/
  order : Nat → Shuffle

def SynthState.charge (st : SynthState) : SynthState :=
  { st with budget := st.budget - 1, calls := st.calls + 1 }

def SynthState.examine (st : SynthState) (k : Nat) : SynthState :=
  { st with branches := st.branches + k }

/-- `synth` from the `allOf` of a schema on; the properties found are those of the schema
itself and of all branches. -/
def synthAllOf (c : SynthCtx F) (left : Nat)
    (synth : Schema F → SynthState → JsonValue (GoNumber F) × SynthState) (schema : Schema F)
    (first : JsonValue (GoNumber F)) (rest : List (JsonValue (GoNumber F))) (st : SynthState) :
    JsonValue (GoNumber F) × SynthState :=
  let r := collectAllOfProps c.defs (left + 2) (first :: rest) (addProperties [] schema, 0)
  let st := st.examine r.2
  if r.1 ≠ [] then synthObject (c.order st.calls) synth r.1 st
  else
    match first with
    | .object m => synth m st
    | _ => (.null, st)

/-- `synth` for a schema that is not decided by a keyword before its type. -/
def synthTyped (c : SynthCtx F)
    (synth : Schema F → SynthState → JsonValue (GoNumber F) × SynthState) (schema : Schema F)
    (st : SynthState) : JsonValue (GoNumber F) × SynthState :=
  if typeOf schema = bytes "object" then
    let props :=
      match get schema "properties" with
      | some (.object p) => p
      | _ => []
    synthObject (c.order st.calls) synth props st
  else if typeOf schema = bytes "array" then synthArray synth schema st
  else (synthScalar schema, st)

def enumValue (schema : Schema F) : Option (JsonValue (GoNumber F)) :=
  match get schema "enum" with
  | some (.array (e :: _)) => some e
  | _ => none

/-- `synth` with the levels left until `maxSynthDepth`. -/
def synth (c : SynthCtx F) : Nat → Schema F → SynthState → JsonValue (GoNumber F) × SynthState
  | 0, schema, st => (zeroForSchema c.defs schema, st.charge)
  | left + 1, schema, st =>
    if st.charge.budget ≤ 0 then (zeroForSchema c.defs schema, st.charge)
    else
      match get schema "const" with
      | some cv => (cv, st.charge)
      | none =>
        match enumValue schema with
        | some e => (e, st.charge)
        | none =>
          match get schema "$ref" with
          | some (.string ref) =>
            match resolveRef ref c.defs with
            | some resolved => synth c left resolved st.charge
            | none => (.null, st.charge)
          | _ =>
            match (firstBranch schema "anyOf").or (firstBranch schema "oneOf") with
            | some first => synth c left first st.charge
            | none =>
              match get schema "allOf" with
              | some (.array (first :: rest)) =>
                synthAllOf c left (synth c left) schema first rest st.charge
              | _ => synthTyped c (synth c left) schema st.charge

def synthSchema (order : Nat → Shuffle) (schema : Schema F) : JsonValue (GoNumber F) × SynthState :=
  synth ⟨extractDefs schema, order⟩ maxSynthDepth schema ⟨maxSynthNodes, 0, 0⟩

def synthesizeFromSchema (marshal : JsonValue (GoNumber F) → Option Bytes) (order : Nat → Shuffle)
    (schema : Schema F) : Bytes :=
  if schema = [] then bytes "\x7b\x7d"
  else (marshal (synthSchema order schema).1).getD (bytes "\x7b\x7d")

end

end

end MockAgents.Adapter
