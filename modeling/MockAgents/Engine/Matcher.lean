import MockAgents.Config.Definition
/-!
# The scenario matcher

`scenario_matcher.go`: the first scenario whose rule holds answers a message, or the first
without a rule.  The matcher keeps the patterns it compiled, with those that do not compile,
and the literals it lowered.  The regexp package and `strings.ToLower` are parameters.
-/

namespace MockAgents.Engine

open Lib Config

/-- A compiled pattern: what `FindStringSubmatch` finds and the names of its groups. -/
structure Regexp where
  findStringSubmatch : Bytes → Option (List Bytes)
  subexpNames : List Bytes

structure MatcherEnv where
  /-- `regexp.Compile`, with the text of its error -/
  compile : Bytes → Except Bytes Regexp
  toLower : Bytes → Bytes

/-- The caches; a pattern that does not compile is kept as `none`. -/
structure ScenarioMatcher where
  regexCache : AList fun _ : Bytes => Option Regexp
  lowerCache : AList fun _ : Bytes => Bytes

def newScenarioMatcher : ScenarioMatcher := ⟨∅, ∅⟩

/-- A message with what rules look at beside its text. -/
structure Turn where
  userMessage : Bytes
  turnNumber : Int
  imageCount : Int

namespace ScenarioMatcher

variable (env : MatcherEnv) (m : ScenarioMatcher)

def lowerContains (s : Bytes) : ScenarioMatcher × Bytes :=
  match m.lowerCache.lookup s with
  | some lowered => (m, lowered)
  | none => ({ m with lowerCache := m.lowerCache.insert s (env.toLower s) }, env.toLower s)

def compileRegex (pattern : Bytes) : ScenarioMatcher × Option Regexp :=
  match m.regexCache.lookup pattern with
  | some cached => (m, cached)
  | none =>
    let re := (env.compile pattern).toOption
    ({ m with regexCache := m.regexCache.insert pattern re }, re)

/-- The named groups of a match; a later group of a name replaces an earlier one. -/
def namedGroups (re : Regexp) (found : List Bytes) : AList fun _ : Bytes => Bytes :=
  ((re.subexpNames.zip found).drop 1).foldl
    (fun captures e => if e.1 = [] then captures else captures.insert e.1 e.2) ∅

/-- The content rules of `evaluate`; `none` is no match. -/
def evaluateContent (rule : MatchRule) (turn : Turn) (lowerMessage : Bytes) :
    ScenarioMatcher × Option (AList fun _ : Bytes => Bytes) :=
  let (m, contained) :=
    if rule.contentContains = [] then (m, true)
    else
      let (m, literal) := m.lowerContains env rule.contentContains
      (m, Strings.contains lowerMessage literal)
  if !contained then (m, none)
  else if rule.contentRegex = [] then (m, some ∅)
  else
    match m.compileRegex env rule.contentRegex with
    | (m, none) => (m, none)
    | (m, some re) => (m, (re.findStringSubmatch turn.userMessage).map (namedGroups re))

def evaluate (rule : MatchRule) (turn : Turn) (lowerMessage : Bytes) :
    ScenarioMatcher × Option (AList fun _ : Bytes => Bytes) :=
  if rule.hasImage.any fun want => decide (0 < turn.imageCount) != want then (m, none)
  else
    let (m, captures) := m.evaluateContent env rule turn lowerMessage
    (m, captures.filter fun _ => rule.turnNumber.all fun n => decide (turn.turnNumber = n))

end ScenarioMatcher

structure MatchResult (N : Type) where
  scenario : Scenario N
  captures : Option (AList fun _ : Bytes => Bytes)
  isDefault : Bool

namespace ScenarioMatcher

variable {N : Type} (env : MatcherEnv)

/-- The loop of `MatchWithCaptures`, with the default scenario so far. -/
def matchFrom (turn : Turn) (lowerMessage : Bytes) :
    ScenarioMatcher → Option (Scenario N) → List (Scenario N) → ScenarioMatcher × Option (MatchResult N)
  | m, default, [] => (m, default.map fun sc => ⟨sc, none, true⟩)
  | m, default, sc :: rest =>
    match sc.rule with
    | none => matchFrom turn lowerMessage m (default.or (some sc)) rest
    | some rule =>
      match m.evaluate env rule turn lowerMessage with
      | (m, some captures) => (m, some ⟨sc, some captures, false⟩)
      | (m, none) => matchFrom turn lowerMessage m default rest

def matchWithCaptures (m : ScenarioMatcher) (scenarios : List (Scenario N)) (turn : Turn) :
    ScenarioMatcher × Option (MatchResult N) :=
  matchFrom env turn (env.toLower turn.userMessage) m none scenarios

def after (calls : List (List (Scenario N) × Turn)) : ScenarioMatcher :=
  calls.foldl (fun m call => (m.matchWithCaptures env call.1 call.2).1) newScenarioMatcher

end ScenarioMatcher

end MockAgents.Engine
