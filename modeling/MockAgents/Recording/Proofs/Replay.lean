import MockAgents.Recording.Proofs.Hash
/-!
# What replay serves

Over a cassette the proxy recorded, a lookup by hash gives recordings of the same method and the
same framed path and body, while the match index looks at the stored path and body only and the
fallback at the path without its query.  A request is served its own recordings as long as these
differences are not met, and only then.
-/

namespace MockAgents.Recording

open Lib Lib.Utf8 List Option Proxy Replay Grouping System

variable {N : Type} {env : Env N} {m : Matcher}
variable {it it' : Interaction} {p : Proxy} {q r : ClientRequest} {e : Recorded}
variable {recorded : List Recorded}

/-! ## Recordings of the proxy -/

/-- What the proxy appended for a request, or what is loaded from the line of such a recording. -/
inductive Proxied (env : Env N) : Recorded → Prop where
  | recorded (p : Proxy) (q : ClientRequest) (answer : Option Answer) (now : Int) {it : Interaction}
      (h : p.record env q answer = some it) : Proxied env ⟨q, stamp env.hashRequest now it⟩
  | loaded {e : Recorded} (h : Proxied env e) {it : Interaction} (hload : env.reload e.interaction = some it) :
      Proxied env ⟨e.source, it⟩

def Interaction.KeyedBy (env : Env N) (q : ClientRequest) (it : Interaction) : Prop :=
  it.method = q.method ∧ it.hash = env.hashRequest q.method (env.hashPath q) q.body

theorem Redactor.apply_keyed {r : Redactor} (h : r.apply env.toRedactEnv it = .ok it') :
    it'.method = it.method ∧ it'.hash = it.hash := by
  unfold Redactor.apply at h
  split at h
  · split at h
    · cases h
    · cases h
      exact ⟨rfl, rfl⟩
  · cases h
    exact ⟨rfl, rfl⟩

theorem Proxy.redacted_keyed
    (hit : it.KeyedBy env q) (h : p.redacted env it = some it') : it'.KeyedBy env q := by
  unfold redacted at h
  split at h
  · cases h
    exact hit
  next r _ =>
    cases happly : r.apply env.toRedactEnv it with
    | error err =>
      rw [happly] at h
      cases h
    | ok masked =>
      rw [happly] at h
      cases h
      obtain ⟨hmethod, hhash⟩ := Redactor.apply_keyed happly
      exact ⟨hmethod.trans hit.1, hhash.trans hit.2⟩

theorem Proxy.record_keyed {answer : Option Answer}
    (h : p.record env q answer = some it) : it.KeyedBy env q := by
  unfold record at h
  split at h
  · cases h
  · obtain ⟨a, -, ha⟩ := bind_eq_some_iff.mp h
    split at ha
    · unfold recordStream at ha
      split at ha
      · cases ha
      · split at ha
        · cases ha
        · exact redacted_keyed ⟨rfl, rfl⟩ ha
    · obtain ⟨body, -, hbody⟩ := bind_eq_some_iff.mp ha
      split at hbody
      · cases hbody
      · exact redacted_keyed ⟨rfl, rfl⟩ hbody

theorem stamp_keyed (hdigest : ∀ b, env.sha256 b ≠ [])
    (h : it.KeyedBy env q) (now : Int) : (stamp env.hashRequest now it).KeyedBy env q := by
  refine ⟨h.1, ?_⟩
  have hset : it.hash.isEmpty = false := by
    rw [h.2, isEmpty_eq_false_iff]
    exact hexEncode_ne_nil (hdigest _)
  rw [stamp, hset]
  exact h.2

theorem Proxied.keyed (hdigest : ∀ b, env.sha256 b ≠ []) (h : Proxied env e) :
    e.interaction.KeyedBy env e.source := by
  induction h with
  | recorded p q answer now h => exact stamp_keyed hdigest (record_keyed h) now
  | @loaded e h it hload ih =>
    unfold Env.reload at hload
    split at hload
    · cases hload
      refine ⟨?_, ?_⟩
      · exact (congrArg coerce ih.1).trans e.source.coerce_method
      · exact (congrArg coerce ih.2).trans ((coerce_hexEncode _).trans rfl)
    · cases hload

/-! ## The indices -/

/-- The indices group the interactions by their keys, the match index those it has been built
over. -/
structure Replay.Regrouped (env : Env N) (m : Matcher) (s : Replay) : Prop where
  byHash : ∀ hash, s.byHash.get hash = s.recorded.filter fun e => e.interaction.hash = hash
  built : s.builtLen ≤ s.recorded.length
  byMatchKey : ∀ key, s.byMatchKey.get key =
    (s.recorded.take s.builtLen).filter fun e => matchKey env m e = key

/-- And every interaction has the method and the hash of its request. -/
structure Replay.Grouped (env : Env N) (m : Matcher) (s : Replay) : Prop extends s.Regrouped env m where
  keyed : ∀ e ∈ s.recorded, e.interaction.KeyedBy env e.source

section Grouped
variable {s : Replay}

theorem regrouped_new (recorded : List Recorded) : (new recorded).Regrouped env m where
  byHash hash := by rw [new, get_addAll, get_empty, nil_append]
  built := Nat.zero_le _
  byMatchKey key := by rw [new, get_empty, take_zero, filter_nil]

theorem Replay.Regrouped.append (h : s.Regrouped env m) (q : ClientRequest) (it : Interaction) (now : Int) :
    (s.append env now q it).Regrouped env m where
  byHash hash := by
    rw [Replay.append, get_add, h.byHash, filter_append, filter_singleton]
    split <;> simp_all
  built := by
    rw [Replay.append, length_append]
    exact Nat.le_add_right_of_le h.built
  byMatchKey key := by
    rw [Replay.append, h.byMatchKey, take_append_of_le_length h.built]

theorem Replay.Regrouped.extendMatchIndex (h : s.Regrouped env m) :
    (s.extendMatchIndex env m).Regrouped env m ∧ (s.extendMatchIndex env m).recorded = s.recorded ∧
      (s.extendMatchIndex env m).cursor = s.cursor ∧
      ∀ key, (s.extendMatchIndex env m).byMatchKey.get key =
        s.recorded.filter fun e => matchKey env m e = key := by
  unfold Replay.extendMatchIndex
  split
  next hgrown =>
    have hall : ∀ key, (s.byMatchKey.addAll (matchKey env m) (s.recorded.drop s.builtLen)).get key =
        s.recorded.filter fun e => matchKey env m e = key := by
      intro key
      rw [get_addAll, h.byMatchKey, ← filter_append, take_append_drop]
    refine ⟨⟨h.byHash, le_rfl, fun key => ?_⟩, rfl, rfl, hall⟩
    rw [take_length]
    exact hall key
  next hsame =>
    refine ⟨h, rfl, rfl, fun key => ?_⟩
    rw [h.byMatchKey, take_of_length_le (Nat.le_of_not_lt hsame)]

theorem Replay.advance_fields (s : Replay) (key : Bytes) (first : Recorded) (rest : List Recorded) :
    (s.advance key first rest).1.recorded = s.recorded ∧
      (s.advance key first rest).1.byHash = s.byHash ∧
      (s.advance key first rest).1.builtLen = s.builtLen ∧
      (s.advance key first rest).1.byMatchKey = s.byMatchKey ∧
      (s.advance key first rest).2 ∈ first :: rest := by
  unfold advance
  dsimp only
  split
  next e he => exact ⟨rfl, rfl, rfl, rfl, mem_of_getElem? he⟩
  next => exact ⟨rfl, rfl, rfl, rfl, getLast_mem _⟩

theorem Replay.Regrouped.advance (h : s.Regrouped env m) (key : Bytes) (first : Recorded) (rest : List Recorded) :
    (s.advance key first rest).1.Regrouped env m := by
  obtain ⟨hrecorded, hhash, hbuilt, hmatch, -⟩ := s.advance_fields key first rest
  refine ⟨?_, ?_, ?_⟩
  · rw [hrecorded, hhash]
    exact h.byHash
  · rw [hrecorded, hbuilt]
    exact h.built
  · rw [hrecorded, hbuilt, hmatch]
    exact h.byMatchKey

theorem grouped_new (h : ∀ e ∈ recorded, e.interaction.KeyedBy env e.source) :
    (new recorded).Grouped env m :=
  ⟨regrouped_new recorded, h⟩

theorem Replay.Grouped.append (hdigest : ∀ b, env.sha256 b ≠ []) (h : s.Grouped env m)
    (hit : it.KeyedBy env q) (now : Int) : (s.append env now q it).Grouped env m := by
  refine ⟨h.toRegrouped.append q it now, fun e he => ?_⟩
  rcases mem_append.mp he with he | he
  · exact h.keyed e he
  · obtain rfl := mem_singleton.mp he
    exact stamp_keyed hdigest hit now

theorem Replay.Grouped.advance (h : s.Grouped env m) (key : Bytes) (first : Recorded) (rest : List Recorded) :
    (s.advance key first rest).1.Grouped env m :=
  ⟨h.toRegrouped.advance key first rest, (s.advance_fields key first rest).1 ▸ h.keyed⟩

end Grouped

/-! ## Lookups -/

/-- The match index has a recording for a request: the stored path and body are the request's. -/
def Indexed (env : Env N) (m : Matcher) (r : ClientRequest) (e : Recorded) : Prop :=
  e.interaction.method = r.method ∧
    framed e.interaction.path (m.canonical env e.interaction.requestBodyBytes) =
      framed r.path (m.canonical env r.body)

def MadeFor (env : Env N) (e : Recorded) (r : ClientRequest) (path : Bytes) : Prop :=
  e.source.method = r.method ∧
    framed (env.hashPath e.source) (env.canonicalBody e.source.body) =
      framed path (env.canonicalBody r.body)

section Lookups
variable (hsha : Function.Injective env.sha256) {e : Recorded} {r : ClientRequest}
include hsha

theorem matchKey_iff (h : e.interaction.KeyedBy env e.source) :
    matchKey env m e = m.key env r.method r.path r.body ↔ Indexed env m r e := by
  refine hashRequest_inj hsha ?_ r.newline_not_mem
  rw [h.1]
  exact e.source.newline_not_mem

theorem hash_iff (h : e.interaction.KeyedBy env e.source) (path : Bytes) :
    e.interaction.hash = env.hashRequest r.method path r.body ↔ MadeFor env e r path := by
  rw [h.2]
  exact hashRequest_inj hsha e.source.newline_not_mem r.newline_not_mem

end Lookups

/-- The recording of one request may be served to the other. -/
def SameRequest (env : Env N) (m : Matcher) (q r : ClientRequest) : Prop :=
  q.method = r.method ∧ env.hashPath q = env.hashPath r ∧ m.canonical env q.body = m.canonical env r.body

/-- The recordings made for the path and body of a request are its own, unless a newline in a
path makes two frames one. -/
theorem MadeFor.same (hjson : env.RoundTrips)
    (h : MadeFor env e r (env.hashPath r)) (hpath : env.hashPath e.source = env.hashPath r) :
    SameRequest env m e.source r := by
  refine ⟨h.1, hpath, hjson.canonical_eq m ?_⟩
  have hframes := h.2
  rw [hpath] at hframes
  simpa [framed] using hframes

/-! ## Runs -/

/-- A lookup from the state before it gives only recordings of the request. -/
def Task.Unmistaken (env : Env N) (m : Matcher) (s : Replay) : Task → Prop
  | .index r => ∀ e ∈ s.recorded, Indexed env m r e →
      env.hashPath e.source = env.hashPath r ∧ m.canonical env e.source.body = m.canonical env r.body
  | .exact r => ∀ e ∈ s.recorded, MadeFor env e r (env.hashPath r) → env.hashPath e.source = env.hashPath r
  | .legacy r => ∀ e ∈ s.recorded, ¬ MadeFor env e r r.path
  | _ => True

/-- The call that moves makes no mistaken lookup. -/
def Unmistaken (env : Env N) (m : Matcher) (w : Pool Replay Task) : Act Call Unit → Prop
  | .start _ => True
  | .step i _ => ∀ t, w.calls[i]? = some t → t.Unmistaken env m w.shared

/-- What a call holds was recorded for its request. -/
def Task.Own (env : Env N) (m : Matcher) : Task → Prop
  | .found r _ first rest => ∀ e ∈ first :: rest, SameRequest env m e.source r
  | .served r e => SameRequest env m e.source r
  | _ => True

theorem own_ofSequence {key : Bytes} {otherwise : Task} {seq : List Recorded}
    (hseq : ∀ e ∈ seq, SameRequest env m e.source r) (hotherwise : otherwise.Own env m) :
    (Task.ofSequence r key otherwise seq).Own env m := by
  cases seq with
  | nil => exact hotherwise
  | cons first rest => exact hseq

theorem start_own (call : Call) : (Task.start m call).Own env m := by
  cases call with
  | record => trivial
  | serve r =>
    simp only [Task.start]
    split
    · trivial
    · split <;> trivial

section Runs
variable (hsha : Function.Injective env.sha256) (hdigest : ∀ b, env.sha256 b ≠ []) (hjson : env.RoundTrips)
include hsha hdigest hjson

theorem Task.next_own {s : Replay} (hs : s.Grouped env m) {t : Task} (ht : t.Own env m)
    (hlookup : t.Unmistaken env m s) :
    (t.next env m s).1.Grouped env m ∧ (t.next env m s).2.Own env m := by
  cases t with
  | record p q answer now =>
    simp only [Task.next]
    split
    · exact ⟨hs, trivial⟩
    next it hit => exact ⟨hs.append hdigest (record_keyed hit) now, trivial⟩
  | index r =>
    obtain ⟨hgrouped, hsame, -, hget⟩ := hs.extendMatchIndex
    refine ⟨⟨hgrouped, hsame ▸ hs.keyed⟩, own_ofSequence (fun e he => ?_) trivial⟩
    rw [hget, mem_filter, decide_eq_true_eq] at he
    have hindexed := (matchKey_iff hsha (hs.keyed e he.1)).mp he.2
    exact ⟨(hs.keyed e he.1).1.symm.trans hindexed.1, hlookup e he.1 hindexed⟩
  | exact r =>
    refine ⟨hs, own_ofSequence (fun e he => ?_) (by split <;> trivial)⟩
    rw [hs.byHash, mem_filter, decide_eq_true_eq] at he
    have hmade := (hash_iff hsha (hs.keyed e he.1) _).mp he.2
    exact hmade.same hjson (hlookup e he.1 hmade)
  | legacy r =>
    refine ⟨hs, own_ofSequence (fun e he => ?_) trivial⟩
    rw [hs.byHash, mem_filter, decide_eq_true_eq] at he
    exact absurd ((hash_iff hsha (hs.keyed e he.1) _).mp he.2) (hlookup e he.1)
  | found r key first rest =>
    exact ⟨hs.advance key first rest, ht _ (s.advance_fields key first rest).2.2.2.2⟩
  | recorded | served | missed | refused => exact ⟨hs, ht⟩

/-- In a run without a mistaken lookup every request is served recordings of its own. -/
theorem own_run (hrecorded : ∀ e ∈ recorded, e.interaction.KeyedBy env e.source)
    {acts : List (Act Call Unit)}
    (hsteps : (replay env m).Steps (Unmistaken env m) ⟨new recorded, []⟩ acts) :
    Holds (Grouped env m) (fun _ _ t => t.Own env m)
      ((replay env m).run ⟨new recorded, []⟩ acts) := by
  refine hsteps.run_induction (fun w a hw hok => ?_)
    ⟨grouped_new hrecorded, fun i t h => by cases h⟩
  refine Holds.act hw (fun call _ => start_own call) ?_ ?_
  · rintro i choice t rfl hi
    exact Task.next_own hsha hdigest hjson hw.1 (hw.2 i t hi) (hok t hi)
  · exact fun i choice t j u _ _ hj _ => hw.2 j u hj

end Runs

/-! ## A request alone -/

def hashed (recorded : List Recorded) (hash : Bytes) : List Recorded :=
  recorded.filter fun e => e.interaction.hash = hash

def matched (env : Env N) (m : Matcher) (recorded : List Recorded) (key : Bytes) : List Recorded :=
  recorded.filter fun e => matchKey env m e = key

def Env.requestHash (env : Env N) (r : ClientRequest) : Bytes :=
  env.hashRequest r.method (env.hashPath r) r.body

def Env.bareHash (env : Env N) (r : ClientRequest) : Bytes := env.hashRequest r.method r.path r.body

def exactCandidates (env : Env N) (recorded : List Recorded) (r : ClientRequest) : Bytes × List Recorded :=
  if hashed recorded (env.requestHash r) ≠ [] then (env.requestHash r, hashed recorded (env.requestHash r))
  else (env.bareHash r, if env.hashPath r = r.path then [] else hashed recorded (env.bareHash r))

def candidates (env : Env N) (m : Matcher) (recorded : List Recorded) (r : ClientRequest) :
    Bytes × List Recorded :=
  let key := m.key env r.method r.path r.body
  if m.active ∧ matched env m recorded key ≠ [] then (key, matched env m recorded key)
  else exactCandidates env recorded r

/-- A request is served the next of its recordings, if there are any. -/
def Replay.serveFrom (s : Replay) (r : ClientRequest) (key : Bytes) : List Recorded → Replay × Task
  | [] => (s, .missed r)
  | first :: rest => ((s.advance key first rest).1, .served r (s.advance key first rest).2)

section Alone
variable {s : Replay} {r : ClientRequest}

theorem alone_missed (k : Nat) : (replay env m).alone s (.missed r) (List.replicate k ()) = (s, .missed r) := by
  induction k with
  | zero => rfl
  | succ k ih => exact ih

theorem alone_served (e : Recorded) (k : Nat) :
    (replay env m).alone s (.served r e) (List.replicate k ()) = (s, .served r e) := by
  induction k with
  | zero => rfl
  | succ k ih => exact ih

theorem alone_ofSequence {key : Bytes} {otherwise : Task} {seq : List Recorded} (hseq : seq ≠ []) (k : Nat) :
    (replay env m).alone s (.ofSequence r key otherwise seq) (List.replicate (k + 1) ()) =
      s.serveFrom r key seq := by
  cases seq with
  | nil => exact absurd rfl hseq
  | cons first rest =>
    rw [replicate_succ]
    exact alone_served _ k

theorem alone_exact (hs : s.Grouped env m) (k : Nat) :
    (replay env m).alone s (.exact r) (List.replicate (k + 3) ()) =
      s.serveFrom r (exactCandidates env s.recorded r).1 (exactCandidates env s.recorded r).2 := by
  have hnext : (replay env m).alone s (.exact r) (List.replicate (k + 3) ()) =
      (replay env m).alone s
        (.ofSequence r (env.requestHash r) (if env.hashPath r = r.path then .missed r else .legacy r)
          (hashed s.recorded (env.requestHash r)))
        (List.replicate (k + 2) ()) := by
    rw [hashed, ← hs.byHash]
    rfl
  have hlegacy : (replay env m).alone s (.legacy r) (List.replicate (k + 2) ()) =
      (replay env m).alone s
        (.ofSequence r (env.bareHash r) (.missed r) (hashed s.recorded (env.bareHash r)))
        (List.replicate (k + 1) ()) := by
    rw [hashed, ← hs.byHash]
    rfl
  rw [hnext]
  by_cases hexact : hashed s.recorded (env.requestHash r) = []
  · rw [exactCandidates, hexact, Task.ofSequence]
    by_cases hpath : env.hashPath r = r.path
    · rw [if_pos hpath, if_pos hpath]
      exact alone_missed (k + 2)
    · rw [if_neg hpath, if_neg hpath, hlegacy]
      by_cases hbare : hashed s.recorded (env.bareHash r) = []
      · rw [hbare]
        exact alone_missed (k + 1)
      · exact alone_ofSequence hbare k
  · rw [exactCandidates, if_pos hexact]
    exact alone_ofSequence hexact (k + 1)

theorem alone_serve (hs : s.Grouped env m) (hfits : r.body.length ≤ maxRequestBodyBytes) :
    ∃ s' : Replay, s'.Grouped env m ∧ s'.recorded = s.recorded ∧ s'.cursor = s.cursor ∧
      (replay env m).alone s (Task.start m (.serve r)) (List.replicate 4 ()) =
        s'.serveFrom r (candidates env m s.recorded r).1 (candidates env m s.recorded r).2 := by
  rw [Task.start, if_neg (Nat.not_lt.mpr hfits)]
  cases hactive : m.active with
  | false =>
    rw [if_neg nofun, candidates, if_neg (fun h => by simp [hactive] at h)]
    exact ⟨s, hs, rfl, rfl, alone_exact hs 1⟩
  | true =>
    obtain ⟨hregrouped, hrecorded, hcursor, hget⟩ := hs.extendMatchIndex
    have hgrouped : (s.extendMatchIndex env m).Grouped env m := ⟨hregrouped, hrecorded ▸ hs.keyed⟩
    refine ⟨s.extendMatchIndex env m, hgrouped, hrecorded, hcursor, ?_⟩
    have hnext : (replay env m).alone s (.index r) (List.replicate 4 ()) =
        (replay env m).alone (s.extendMatchIndex env m)
          (.ofSequence r (m.key env r.method r.path r.body) (.exact r)
            (matched env m s.recorded (m.key env r.method r.path r.body)))
          (List.replicate 3 ()) := by
      rw [matched, ← hget]
      rfl
    rw [if_pos rfl, hnext, candidates]
    by_cases hindexed : matched env m s.recorded (m.key env r.method r.path r.body) = []
    · rw [if_neg (fun h => h.2 hindexed), hindexed, ← hrecorded]
      exact alone_exact hgrouped 0
    · rw [if_pos ⟨hactive, hindexed⟩]
      exact alone_ofSequence hindexed 2

end Alone

/-! ## A request again and again -/

/-- What the request with a number gets: the recording with that number, or the last one. -/
def Task.turn (r : ClientRequest) (seq : List Recorded) (n : Nat) : Task :=
  match seq[min n (seq.length - 1)]? with
  | none => .missed r
  | some e => .served r e

section Sequence
variable {s : Replay} {r : ClientRequest} {key : Bytes} {seq : List Recorded} {n : Nat}

theorem Replay.Grouped.serveFrom (h : s.Grouped env m) (r : ClientRequest) (key : Bytes) (seq : List Recorded) :
    (s.serveFrom r key seq).1.Grouped env m ∧ (s.serveFrom r key seq).1.recorded = s.recorded := by
  cases seq with
  | nil => exact ⟨h, rfl⟩
  | cons first rest => exact ⟨h.advance key first rest, (s.advance_fields key first rest).1⟩

theorem serveFrom_turn (hcursor : (s.cursor.lookup key).getD 0 = min n seq.length) :
    (s.serveFrom r key seq).2 = .turn r seq n ∧
      ((s.serveFrom r key seq).1.cursor.lookup key).getD 0 = min (n + 1) seq.length := by
  cases seq with
  | nil => exact ⟨rfl, by rw [length_nil, Nat.min_zero] at hcursor ⊢; exact hcursor⟩
  | cons first rest =>
    rw [serveFrom, advance, hcursor, Task.turn]
    by_cases hlt : n < (first :: rest).length
    · have hhere : min n (first :: rest).length = n := by omega
      have hturn : min n ((first :: rest).length - 1) = n := by omega
      have hnext : min (n + 1) (first :: rest).length = n + 1 := by omega
      rw [hhere, hturn, hnext, getElem?_eq_getElem hlt]
      exact ⟨rfl, by rw [AList.lookup_insert, getD_some]⟩
    · have hhere : min n (first :: rest).length = (first :: rest).length := by omega
      have hturn : min n ((first :: rest).length - 1) = (first :: rest).length - 1 := by omega
      have hnext : min (n + 1) (first :: rest).length = (first :: rest).length := by omega
      rw [hhere, hturn, hnext, getElem?_eq_none le_rfl, getElem?_eq_getElem (by simp)]
      exact ⟨by rw [getLast_eq_getElem], hcursor.trans hhere⟩

theorem inSequence_serve (hs : s.Grouped env m) (hfits : r.body.length ≤ maxRequestBodyBytes) (count : Nat)
    (hcursor : (s.cursor.lookup (candidates env m s.recorded r).1).getD 0 =
      min n (candidates env m s.recorded r).2.length) :
    ((replay env m).inSequence (List.replicate 4 ()) s (List.replicate count (.serve r))).2 =
      (List.range' n count).map (.turn r (candidates env m s.recorded r).2) := by
  induction count generalizing s n with
  | zero => rfl
  | succ count ih =>
    obtain ⟨s', hgrouped, hrecorded, hsame, halone⟩ := alone_serve hs hfits
    rw [← hsame] at hcursor
    obtain ⟨hturn, hnext⟩ := serveFrom_turn (r := r) hcursor
    obtain ⟨hafter, hkept⟩ := hgrouped.serveFrom r (candidates env m s.recorded r).1
      (candidates env m s.recorded r).2
    rw [replicate_succ (n := count), inSequence, range'_succ, map_cons]
    have hstart : (replay env m).start (.serve r) = Task.start m (.serve r) := rfl
    rw [hstart, halone, hturn]
    have hrest := ih (n := n + 1) hafter
    rw [hkept, hrecorded] at hrest
    rw [hrest hnext]

end Sequence

def repeated (r : ClientRequest) (count : Nat) : List (Act Call Unit) :=
  System.oneByOne (List.replicate 4 ()) 0 (List.replicate count (.serve r))

theorem calls_repeated (hrecorded : ∀ e ∈ recorded, e.interaction.KeyedBy env e.source)
    (hfits : r.body.length ≤ maxRequestBodyBytes) (count : Nat) :
    ((replay env m).run ⟨new recorded, []⟩ (repeated r count)).calls =
      (List.range' 0 count).map (.turn r (candidates env m recorded r).2) := by
  rw [repeated]
  have hcalls : ((replay env m).run ⟨new recorded, []⟩
      (oneByOne (List.replicate 4 ()) 0 (List.replicate count (.serve r)))).calls =
        ((replay env m).inSequence (List.replicate 4 ()) (new recorded)
          (List.replicate count (.serve r))).2 :=
    congrArg Pool.calls (run_oneByOne _ ⟨new recorded, []⟩ _)
  rw [hcalls]
  exact inSequence_serve (grouped_new hrecorded) hfits count (by rw [Nat.zero_min]; rfl)

/-! ## Any requests -/

def OnlyServes (acts : List (Act Call Unit)) : Prop := ∀ call, .start call ∈ acts → ∃ r, call = .serve r

/-- A call holds nothing but the candidates of its request, and goes to a lookup when those
before it find nothing. -/
def Task.Drawn (env : Env N) (m : Matcher) (recorded : List Recorded) : Task → Prop
  | .record .. => False
  | .index _ => m.active = true
  | .exact r => candidates env m recorded r = exactCandidates env recorded r
  | .legacy r => candidates env m recorded r = (env.bareHash r, hashed recorded (env.bareHash r))
  | .found r _ first rest => (candidates env m recorded r).2 = first :: rest
  | .served r e => e ∈ (candidates env m recorded r).2
  | _ => True

section Drawn
variable {recorded : List Recorded}

theorem drawn_ofSequence {key : Bytes} {otherwise : Task} {seq : List Recorded}
    (hnil : seq = [] → otherwise.Drawn env m recorded) (hseq : seq ≠ [] → (candidates env m recorded r).2 = seq) :
    (Task.ofSequence r key otherwise seq).Drawn env m recorded := by
  cases seq with
  | nil => exact hnil rfl
  | cons first rest => exact hseq (cons_ne_nil first rest)

theorem Task.next_drawn {s : Replay} (hs : s.Grouped env m) {t : Task} (ht : t.Drawn env m s.recorded) :
    (t.next env m s).1.Grouped env m ∧ (t.next env m s).1.recorded = s.recorded ∧
      (t.next env m s).2.Drawn env m s.recorded := by
  cases t with
  | record => exact absurd ht id
  | index r =>
    obtain ⟨hgrouped, hsame, -, hget⟩ := hs.extendMatchIndex
    refine ⟨⟨hgrouped, hsame ▸ hs.keyed⟩, hsame, ?_⟩
    simp only [Task.next]
    rw [hget]
    exact drawn_ofSequence (fun hnil => if_neg fun h => h.2 hnil)
      fun hne => congrArg Prod.snd (if_pos ⟨ht, hne⟩)
  | exact r =>
    refine ⟨hs, rfl, ?_⟩
    simp only [Task.next]
    rw [hs.byHash]
    refine drawn_ofSequence (fun hnil => ?_) fun hne => ?_
    · have hnone : hashed s.recorded (env.requestHash r) = [] := hnil
      split
      · trivial
      next hquery => exact ht.trans ((if_neg (not_not.mpr hnone)).trans (by rw [if_neg hquery]))
    · exact congrArg Prod.snd (ht.trans (if_pos hne))
  | legacy r =>
    refine ⟨hs, rfl, ?_⟩
    simp only [Task.next]
    rw [hs.byHash]
    exact drawn_ofSequence (fun _ => trivial) fun _ => congrArg Prod.snd ht
  | found r key first rest =>
    obtain ⟨hsame, -, -, -, hmem⟩ := s.advance_fields key first rest
    have hseq : (candidates env m s.recorded r).2 = first :: rest := ht
    refine ⟨hs.advance key first rest, hsame, ?_⟩
    simp only [Task.next, Task.Drawn]
    rw [hseq]
    exact hmem
  | recorded | served | missed | refused => exact ⟨hs, rfl, ht⟩

theorem drawn_run (hrecorded : ∀ e ∈ recorded, e.interaction.KeyedBy env e.source) {acts : List (Act Call Unit)}
    (hserves : OnlyServes acts) :
    Holds (fun s => s.Grouped env m ∧ s.recorded = recorded) (fun _ _ t => t.Drawn env m recorded)
      ((replay env m).run ⟨new recorded, []⟩ acts) := by
  have hsteps : (replay env m).Steps (fun _ a => ∀ call, a = .start call → ∃ r, call = .serve r)
      ⟨new recorded, []⟩ acts := by
    refine steps_of_forall ?_
    rintro a ha call rfl
    exact hserves call ha
  refine hsteps.run_induction (fun w a hw hok => ?_)
    ⟨⟨grouped_new hrecorded, rfl⟩, fun i t h => by cases h⟩
  refine Holds.act hw (fun call hcall => ?_) ?_ ?_
  · obtain ⟨r, rfl⟩ := hok call hcall
    show (Task.start m (.serve r)).Drawn env m recorded
    simp only [Task.start]
    split
    · trivial
    · split
      next hactive => exact hactive
      next hinactive => exact if_neg fun h => hinactive h.1
  · rintro i choice t rfl hi
    obtain ⟨⟨hgrouped, rfl⟩, hcalls⟩ := hw
    obtain ⟨hafter, hsame, hdrawn⟩ := Task.next_drawn hgrouped (hcalls i t hi)
    exact ⟨⟨hafter, hsame⟩, hdrawn⟩
  · exact fun i choice t j u _ _ hj _ => hw.2 j u hj

end Drawn

theorem onlyServes_repeated (r : ClientRequest) (count : Nat) : OnlyServes (repeated r count) := by
  have hall : ∀ n, ∀ call, Act.start call ∈
      oneByOne (List.replicate 4 ()) n (List.replicate count (Call.serve r)) → ∃ r, call = .serve r := by
    induction count with
    | zero =>
      intro n call hcall
      cases hcall
    | succ count ih =>
      intro n call hcall
      rw [replicate_succ (n := count), oneByOne, cons_append, mem_cons, mem_append] at hcall
      rcases hcall with hcall | hcall | hcall
      · exact ⟨r, Act.start.inj hcall⟩
      · simp at hcall
      · exact ih (n + 1) call hcall
  exact hall 0

theorem served_iff (hrecorded : ∀ e ∈ recorded, e.interaction.KeyedBy env e.source)
    (hfits : r.body.length ≤ maxRequestBodyBytes) (e : Recorded) :
    (∃ acts, OnlyServes acts ∧ ∃ i : Nat,
      ((replay env m).run ⟨new recorded, []⟩ acts).calls[i]? = some (.served r e)) ↔
      e ∈ (candidates env m recorded r).2 := by
  constructor
  · rintro ⟨acts, hserves, i, hi⟩
    exact (drawn_run hrecorded hserves).2 i _ hi
  · intro he
    obtain ⟨j, hj, rfl⟩ := mem_iff_getElem.mp he
    refine ⟨repeated r (j + 1), onlyServes_repeated r (j + 1), j, ?_⟩
    have hturn : min j ((candidates env m recorded r).2.length - 1) = j := by omega
    rw [calls_repeated hrecorded hfits, getElem?_map, getElem?_range' (by omega), map_some,
      Nat.zero_add, Nat.one_mul, Task.turn, hturn, getElem?_eq_getElem hj]

/-! ## The condition -/

/-- No lookup of a request over a cassette gives a recording of another: not the match index,
which has no query and the stored body; not the hash, if paths with a newline share a frame; and
not the fallback, which must not be reached with a recording of the bare path. -/
structure Faithful (env : Env N) (m : Matcher) (recorded : List Recorded) (r : ClientRequest) : Prop where
  indexed : m.active = true → ∀ e ∈ recorded, Indexed env m r e →
    env.hashPath e.source = env.hashPath r ∧ m.canonical env e.source.body = m.canonical env r.body
  exact : (m.active = true → ∀ e ∈ recorded, ¬ Indexed env m r e) →
    ∀ e ∈ recorded, MadeFor env e r (env.hashPath r) → env.hashPath e.source = env.hashPath r
  bare : (m.active = true → ∀ e ∈ recorded, ¬ Indexed env m r e) →
    (∀ e ∈ recorded, ¬ MadeFor env e r (env.hashPath r)) → env.hashPath r ≠ r.path →
    ∀ e ∈ recorded, ¬ MadeFor env e r r.path

section Condition
variable (hsha : Function.Injective env.sha256) {recorded : List Recorded}
  (hrecorded : ∀ e ∈ recorded, e.interaction.KeyedBy env e.source) {r : ClientRequest}
variable {e : Recorded}
include hsha hrecorded

theorem mem_matched :
    e ∈ matched env m recorded (m.key env r.method r.path r.body) ↔ e ∈ recorded ∧ Indexed env m r e := by
  rw [matched, mem_filter, decide_eq_true_eq]
  exact and_congr_right fun he => matchKey_iff hsha (hrecorded e he)

theorem mem_hashed (path : Bytes) :
    e ∈ hashed recorded (env.hashRequest r.method path r.body) ↔ e ∈ recorded ∧ MadeFor env e r path := by
  rw [hashed, mem_filter, decide_eq_true_eq]
  exact and_congr_right fun he => hash_iff hsha (hrecorded e he) path

/-- The condition holds exactly when all candidates are the request's own. -/
theorem faithful_iff (hjson : env.RoundTrips) :
    Faithful env m recorded r ↔ ∀ e ∈ (candidates env m recorded r).2, SameRequest env m e.source r := by
  by_cases hfirst : m.active = true ∧ matched env m recorded (m.key env r.method r.path r.body) ≠ []
  · obtain ⟨e₀, he₀⟩ := exists_mem_of_ne_nil _ hfirst.2
    obtain ⟨hmem₀, hindexed₀⟩ := (mem_matched hsha hrecorded).mp he₀
    rw [candidates, if_pos hfirst]
    constructor
    · intro h e he
      obtain ⟨hmem, hindexed⟩ := (mem_matched hsha hrecorded).mp he
      exact ⟨(hrecorded e hmem).1.symm.trans hindexed.1, h.indexed hfirst.1 e hmem hindexed⟩
    · intro h
      refine ⟨fun _ e hmem hindexed => (h e ((mem_matched hsha hrecorded).mpr ⟨hmem, hindexed⟩)).2,
        fun hno => ?_, fun hno => ?_⟩
      · exact absurd hindexed₀ (hno hfirst.1 e₀ hmem₀)
      · exact absurd hindexed₀ (hno hfirst.1 e₀ hmem₀)
  · have hno : m.active = true → ∀ e ∈ recorded, ¬ Indexed env m r e := by
      intro hactive e hmem hindexed
      exact hfirst ⟨hactive, ne_nil_of_mem ((mem_matched hsha hrecorded).mpr ⟨hmem, hindexed⟩)⟩
    rw [candidates, if_neg hfirst, exactCandidates]
    by_cases hexact : hashed recorded (env.requestHash r) = []
    · have hnone : ∀ e ∈ recorded, ¬ MadeFor env e r (env.hashPath r) := by
        intro e hmem hmade
        exact ne_nil_of_mem ((mem_hashed hsha hrecorded _).mpr ⟨hmem, hmade⟩) hexact
      rw [if_neg (not_not.mpr hexact)]
      by_cases hquery : env.hashPath r = r.path
      · rw [if_pos hquery]
        constructor
        · intro _ e he
          cases he
        · intro _
          exact ⟨fun ha e hmem h => absurd h (hno ha e hmem), fun _ e hmem h => absurd h (hnone e hmem),
            fun _ _ h => absurd hquery h⟩
      · rw [if_neg hquery]
        constructor
        · intro h e he
          obtain ⟨hmem, hmade⟩ := (mem_hashed hsha hrecorded _).mp he
          exact absurd hmade (h.bare hno hnone hquery e hmem)
        · intro h
          refine ⟨fun ha e hmem h => absurd h (hno ha e hmem), fun _ e hmem h => absurd h (hnone e hmem),
            fun _ _ _ e hmem hmade => ?_⟩
          -- a recording of the bare path is not that of a request with a query
          obtain ⟨-, hpath, -⟩ := h e ((mem_hashed hsha hrecorded _).mpr ⟨hmem, hmade⟩)
          have hframes := hmade.2
          rw [hpath] at hframes
          exact framed_hashPath_ne r hquery _ _ hframes
    · obtain ⟨e₀, he₀⟩ := exists_mem_of_ne_nil _ hexact
      obtain ⟨hmem₀, hmade₀⟩ := (mem_hashed hsha hrecorded _).mp he₀
      rw [if_pos hexact]
      constructor
      · intro h e he
        obtain ⟨hmem, hmade⟩ := (mem_hashed hsha hrecorded _).mp he
        exact hmade.same hjson (h.exact hno e hmem hmade)
      · intro h
        refine ⟨fun ha e hmem h => absurd h (hno ha e hmem), fun _ e hmem hmade => ?_,
          fun _ hnone => absurd hmade₀ (hnone e₀ hmem₀)⟩
        exact (h e ((mem_hashed hsha hrecorded _).mpr ⟨hmem, hmade⟩)).2.1

end Condition

section Example

def seedBody (n : Nat) : Bytes := bytes "\x7b\"seed\":" ++ [UInt8.ofNat (48 + n)] ++ bytes "\x7d"

def sampleEnv : Env Nat where
  replaceAll _ s := s
  decode _ := none
  encode _ := none
  sha256 b := 0 :: b
  unmarshal b :=
    if b = seedBody 1 then some (.object [(bytes "seed", .number 1)])
    else if b = seedBody 2 then some (.object [(bytes "seed", .number 2)])
    else if b = bytes "\x7b\x7d" then some (.object [])
    else none
  marshalString s := 34 :: s ++ [34]
  marshalNumber n := [UInt8.ofNat (48 + n)]
  query q := if q = bytes "alt=sse" then [(bytes "alt", [bytes "sse"])] else []
  encodeQuery q := q.flatMap fun e => e.1 ++ 61 :: e.2.flatten
  toLower s := s
  canonicalHeaderKey s := s
  compact b := b
  printable _ := true

def sampleRequest (rawQuery body : Bytes) : ClientRequest where
  method := bytes "POST"
  path := bytes "/generate"
  rawQuery := rawQuery
  headers := []
  body := body
  method_token := by decide +kernel

def recorder : Proxy := ⟨none, false⟩

def listAnswer : Answer := ⟨200, [], some (bytes "[]"), [], .finished⟩

def ignoringSeed : Matcher := ⟨[bytes "seed"]⟩

theorem canonicalJSON_seed :
    sampleEnv.canonicalJSON (.object [(bytes "seed", .number 1)]) = seedBody 1 ∧
      sampleEnv.canonicalJSON (.object [(bytes "seed", .number 2)]) = seedBody 2 ∧
      sampleEnv.canonicalJSON (.object []) = bytes "\x7b\x7d" := by
  decide +kernel

theorem sampleEnv_roundTrips : sampleEnv.RoundTrips where
  empty := by decide +kernel
  canonical {b v} h := by
    simp only [sampleEnv] at h
    split at h
    · cases h
      rw [canonicalJSON_seed.1]
      rfl
    · split at h
      · cases h
        rw [canonicalJSON_seed.2.1]
        rfl
      · split at h
        · cases h
          rw [canonicalJSON_seed.2.2]
          rfl
        · cases h

def bareRequest : ClientRequest := sampleRequest [] (bytes "hi")

def streamRequest : ClientRequest := sampleRequest (bytes "alt=sse") (bytes "hi")

/-- The request without a query is recorded, and the one with a query takes some steps. -/
def bareThenStream (steps : Nat) : List (Act Call Unit) :=
  [.start (.record recorder bareRequest (some listAnswer) 0), .step 0 (), .start (.serve streamRequest)] ++
    List.replicate steps (.step 1 ())

def bareTwice : List (Act Call Unit) :=
  [.start (.record recorder bareRequest (some listAnswer) 0), .step 0 (), .start (.serve bareRequest),
    .step 1 (), .step 1 ()]

theorem unmistaken_bareTwice :
    (replay sampleEnv ⟨[]⟩).Steps (Unmistaken sampleEnv ⟨[]⟩) ⟨new [], []⟩ bareTwice := by
  refine ⟨trivial, fun t ht => ?_, trivial, fun t ht => ?_, fun t ht => ?_, trivial⟩
  · cases ht
    trivial
  · cases ht
    intro e he hmade
    obtain rfl := mem_singleton.mp he
    rfl
  · cases ht
    trivial

end Example

end MockAgents.Recording
