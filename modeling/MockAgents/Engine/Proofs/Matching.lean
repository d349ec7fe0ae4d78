import MockAgents.Engine.Matcher
/-!
# Matching with caches

The caches of the matcher outlive a request: they are shared by all agents and stay over a
reload.  What they hold is what they would compute, so after any history of calls a message
is matched as if there were no cache.
-/

namespace MockAgents.Engine

open Lib Lib.Maps Config List ScenarioMatcher

variable {N : Type}

/-- The cache holds what the patterns compile to. -/
def ScenarioMatcher.Cached (env : MatcherEnv) (m : ScenarioMatcher) : Prop :=
  ∀ pattern re, m.regexCache.lookup pattern = some re → re = (env.compile pattern).toOption

structure ScenarioMatcher.Faithful (env : MatcherEnv) (m : ScenarioMatcher) : Prop where
  cached : m.Cached env
  lowered : Caches env.toLower m.lowerCache

/-- What a rule finds in the text of a message; a pattern that does not compile finds nothing. -/
def contentCaptures (env : MatcherEnv) (rule : MatchRule) (turn : Turn) :
    Option (AList fun _ : Bytes => Bytes) :=
  if rule.contentContains ≠ [] ∧
      ¬ Strings.contains (env.toLower turn.userMessage) (env.toLower rule.contentContains) then none
  else if rule.contentRegex = [] then some ∅
  else (env.compile rule.contentRegex).toOption.bind fun re =>
    (re.findStringSubmatch turn.userMessage).map (ScenarioMatcher.namedGroups re)

/-- The captures of a rule whose set conditions all hold. -/
def ruleCaptures (env : MatcherEnv) (turn : Turn) (rule : MatchRule) :
    Option (AList fun _ : Bytes => Bytes) :=
  if (rule.hasImage.all fun want => decide (0 < turn.imageCount) == want) ∧
      (rule.turnNumber.all fun n => decide (turn.turnNumber = n)) then contentCaptures env rule turn
  else none

def ruleMatch (env : MatcherEnv) (turn : Turn) (sc : Scenario N) : Option (MatchResult N) :=
  (sc.rule.bind (ruleCaptures env turn)).map fun captures => ⟨sc, some captures, false⟩

/-- The first scenario whose rule holds, else the first without a rule. -/
def firstMatch (env : MatcherEnv) (scenarios : List (Scenario N)) (turn : Turn) :
    Option (MatchResult N) :=
  (scenarios.findSome? (ruleMatch env turn)).or
    ((scenarios.find? fun sc => sc.rule.isNone).map fun sc => ⟨sc, none, true⟩)

namespace ScenarioMatcher.Faithful

variable {env : MatcherEnv} {m : ScenarioMatcher}

theorem compileRegex (h : m.Faithful env) (pattern : Bytes) :
    (m.compileRegex env pattern).1.Faithful env ∧
      (m.compileRegex env pattern).2 = (env.compile pattern).toOption := by
  unfold ScenarioMatcher.compileRegex
  split
  next re hcached => exact ⟨h, h.cached pattern re hcached⟩
  next hmissing => exact ⟨⟨Caches.insert h.cached pattern, h.lowered⟩, rfl⟩

theorem lowerContains (h : m.Faithful env) (s : Bytes) :
    (m.lowerContains env s).1.Faithful env ∧ (m.lowerContains env s).2 = env.toLower s := by
  unfold ScenarioMatcher.lowerContains
  split
  next lowered hcached => exact ⟨h, h.lowered s lowered hcached⟩
  next hmissing => exact ⟨⟨h.cached, h.lowered.insert s⟩, rfl⟩

/-- The pattern is looked up only after the literal was found. -/
theorem evaluateContent (h : m.Faithful env) (rule : MatchRule) (turn : Turn) :
    (m.evaluateContent env rule turn (env.toLower turn.userMessage)).1.Faithful env ∧
      (m.evaluateContent env rule turn (env.toLower turn.userMessage)).2 =
        contentCaptures env rule turn := by
  obtain ⟨hlower, hlowered⟩ := h.lowerContains rule.contentContains
  unfold ScenarioMatcher.evaluateContent contentCaptures
  rw [← hlowered]
  generalize m.lowerContains env rule.contentContains = literal at hlower ⊢
  by_cases hcontains : rule.contentContains ≠ [] ∧
      ¬ Strings.contains (env.toLower turn.userMessage) literal.2
  · simpa [hcontains] using hlower
  · rw [if_neg hcontains]
    have hfaithful : (if rule.contentContains = [] then (m, true) else
        (literal.1, Strings.contains (env.toLower turn.userMessage) literal.2)).1.Faithful env ∧
        (if rule.contentContains = [] then (m, true) else
        (literal.1, Strings.contains (env.toLower turn.userMessage) literal.2)).2 = true := by
      split
      · exact ⟨h, rfl⟩
      · exact ⟨hlower, by simpa [*] using hcontains⟩
    generalize (if rule.contentContains = [] then (m, true) else
        (literal.1, Strings.contains (env.toLower turn.userMessage) literal.2)) = p at hfaithful ⊢
    obtain ⟨m', contained⟩ := p
    obtain ⟨hm', rfl⟩ := hfaithful
    by_cases hpattern : rule.contentRegex = []
    · simpa [hpattern] using hm'
    · obtain ⟨hregex, hcompiled⟩ := hm'.compileRegex rule.contentRegex
      rw [← hcompiled]
      simp only [hpattern, Bool.not_true, Bool.false_eq_true, if_false]
      generalize m'.compileRegex env rule.contentRegex = compiled at hregex ⊢
      obtain ⟨m'', re⟩ := compiled
      cases re <;> exact ⟨hregex, rfl⟩

theorem evaluate (h : m.Faithful env) (rule : MatchRule) (turn : Turn) :
    (m.evaluate env rule turn (env.toLower turn.userMessage)).1.Faithful env ∧
      (m.evaluate env rule turn (env.toLower turn.userMessage)).2 = ruleCaptures env turn rule := by
  obtain ⟨hfaithful, hcaptures⟩ := h.evaluateContent rule turn
  have hturn : ∀ captures : Option (AList fun _ : Bytes => Bytes),
      (captures.filter fun _ => rule.turnNumber.all fun n => decide (turn.turnNumber = n)) =
        if rule.turnNumber.all fun n => decide (turn.turnNumber = n) then captures else none := by
    intro captures
    cases rule.turnNumber.all fun n => decide (turn.turnNumber = n) <;> cases captures <;> rfl
  unfold ScenarioMatcher.evaluate ruleCaptures
  cases rule.hasImage with
  | none => exact ⟨hfaithful, by simp [hturn, hcaptures]⟩
  | some want =>
    by_cases himage : decide (0 < turn.imageCount) = want
    · simpa [himage, hturn, hcaptures] using hfaithful
    · simpa [himage] using h

/-- The loop keeps the first scenario without a rule and stops at the first rule that holds. -/
theorem matchFrom (turn : Turn) (scenarios : List (Scenario N)) (default : Option (Scenario N))
    (h : m.Faithful env) :
    (matchFrom env turn (env.toLower turn.userMessage) m default
        scenarios).1.Faithful env ∧
      (matchFrom env turn (env.toLower turn.userMessage) m default scenarios).2 =
        (scenarios.findSome? (ruleMatch env turn)).or
          ((default.or (scenarios.find? fun sc => sc.rule.isNone)).map fun sc => ⟨sc, none, true⟩) := by
  induction scenarios generalizing m default with
  | nil => exact ⟨h, by simp [matchFrom]⟩
  | cons sc rest ih =>
    rw [matchFrom]
    cases hrule : sc.rule with
    | none =>
      have hskip : ruleMatch env turn sc = none := by simp [ruleMatch, hrule]
      rw [findSome?_cons, hskip, find?_cons, hrule]
      simpa [Option.or_assoc] using ih (default.or (some sc)) h
    | some rule =>
      obtain ⟨hfaithful, hcaptures⟩ := h.evaluate rule turn
      rw [findSome?_cons, find?_cons, hrule, ruleMatch, hrule, Option.bind_some, ← hcaptures]
      dsimp only
      generalize m.evaluate env rule turn (env.toLower turn.userMessage) = r at hfaithful ⊢
      obtain ⟨m', captures⟩ := r
      cases captures with
      | none => exact ih default hfaithful
      | some captures => exact ⟨hfaithful, rfl⟩

end ScenarioMatcher.Faithful

theorem faithful_after (env : MatcherEnv) (calls : List (List (Scenario N) × Turn)) :
    (ScenarioMatcher.after env calls).Faithful env := by
  induction calls using reverseRecOn with
  | nil =>
    exact ⟨fun pattern re h => (by cases h), fun s lowered h => (by cases h)⟩
  | append_singleton calls call ih =>
    rw [ScenarioMatcher.after, foldl_append]
    exact (ih.matchFrom call.2 call.1 none).1

/-- Whatever the matcher was asked before, a message is answered by the first scenario whose
rule holds of it, with the captures of that rule, or else by the first without a rule. -/
theorem matchWithCaptures_after (env : MatcherEnv) (history : List (List (Scenario N) × Turn))
    (scenarios : List (Scenario N)) (turn : Turn) :
    ((ScenarioMatcher.after env history).matchWithCaptures env scenarios turn).2 =
      firstMatch env scenarios turn :=
  ((faithful_after env history).matchFrom turn scenarios none).2

end MockAgents.Engine
