import MockAgents.Adapter.Schema
import MockAgents.Realtime.Exact
/-!
# The work of schema synthesis

The budget bounds the calls of `synth` for every schema.  The branches examined are bounded
with it as long as no `allOf` unfolds to more branches than the schema has nodes.
-/

namespace MockAgents.Adapter

open Lib Lib.Maps Lib.Utf8 Lib.JsonValue Realtime List Option JsonValue

section
variable {F : Type}

/-! ## Unfolding allOf -/

def allOf (schema : Schema F) : List (JsonValue (GoNumber F)) :=
  match get schema "allOf" with
  | some (.array branches) => branches
  | _ => []

/-- The number of branches of an `allOf` that is unfolded to a number of levels. -/
def allOfBranches (defs : Schema F) : Nat → List (JsonValue (GoNumber F)) → Nat
  | 0, _ => 0
  | levels + 1, branches =>
    (branches.map fun b =>
      1 + allOfBranches defs levels (((branchSchema defs b).map allOf).getD [])).sum

theorem allOfBranches_nil (defs : Schema F) (levels : Nat) : allOfBranches defs levels [] = 0 := by
  cases levels <;> rfl

theorem allOfBranches_mono (defs : Schema F) {levels levels' : Nat} (h : levels ≤ levels')
    (branches : List (JsonValue (GoNumber F))) :
    allOfBranches defs levels branches ≤ allOfBranches defs levels' branches := by
  induction levels generalizing levels' branches with
  | zero => exact Nat.zero_le _
  | succ levels ih =>
    obtain ⟨levels', rfl⟩ : ∃ k, levels' = k + 1 := ⟨levels' - 1, by omega⟩
    refine sum_le_sum fun b _ => ?_
    exact Nat.add_le_add_left (ih (by omega) _) 1

theorem collectAllOfProps_branches (defs : Schema F) (levels : Nat)
    (branches : List (JsonValue (GoNumber F))) (acc : Schema F × Nat) :
    (collectAllOfProps defs levels branches acc).2 = acc.2 + allOfBranches defs levels branches := by
  induction levels generalizing branches acc with
  | zero => rfl
  | succ levels ih =>
    simp only [collectAllOfProps, allOfBranches]
    induction branches generalizing acc with
    | nil => rfl
    | cons b branches ihb =>
      rw [foldl_cons, ihb, map_cons, sum_cons, ← Nat.add_assoc]
      unfold collectBranch
      cases hb : branchSchema defs b with
      | none => simp [allOfBranches_nil]
      | some sub =>
        dsimp only
        split
        next nested hnested =>
          have hallOf : allOf sub = nested := by simp [allOf, hnested]
          rw [ih, map_some, getD_some, hallOf]
          omega
        next hnone =>
          have hallOf : allOf sub = [] := by
            unfold allOf
            split
            next nested hnested =>
              exact absurd hnested (hnone nested)
            · rfl
          rw [map_some, getD_some, hallOf, allOfBranches_nil]

/-! ## What the walk can reach -/

section
variable {root : JsonValue (GoNumber F)} {defs schema sub : Schema F}
variable {key : String} {v : JsonValue (GoNumber F)}

theorem get_mem (h : .object schema ∈ root.values)
    (hv : get schema key = some v) : v ∈ root.values :=
  member_mem h (mem_of_lookup hv)

theorem extractDefs_mem (schema : Schema F) :
    extractDefs schema = [] ∨ .object (extractDefs schema) ∈ (object schema).values := by
  have hself := mem_values_self (object schema)
  unfold extractDefs
  split
  next d hd =>
    exact .inr (get_mem hself hd)
  · split
    next d hd =>
      exact .inr (get_mem hself hd)
    · exact .inl rfl

def DefsIn (defs : Schema F) (root : JsonValue (GoNumber F)) : Prop :=
  ∀ e ∈ defs, e.2 ∈ root.values

theorem defsIn_extractDefs (schema : Schema F) : DefsIn (extractDefs schema) (object schema) := by
  intro e he
  rcases extractDefs_mem schema with hnil | hmem
  · rw [hnil] at he
    simp at he
  · exact member_mem hmem he

theorem object?_mem (hv : v ∈ root.values) {m : Schema F}
    (hm : v.object? = some m) : .object m ∈ root.values := by
  cases v with
  | object m' =>
    obtain rfl : m' = m := by simpa [object?] using hm
    exact hv
  | null | bool | number | string | array => simp [object?] at hm

theorem resolveRef_mem (hdefs : DefsIn defs root) {ref : Bytes}
    (h : resolveRef ref defs = some sub) : .object sub ∈ root.values := by
  obtain ⟨v, hv, hsub⟩ := bind_eq_some_iff.mp h
  exact object?_mem (hdefs _ (mem_of_lookup hv)) hsub

theorem branchSchema_mem (hdefs : DefsIn defs root) {b : JsonValue (GoNumber F)}
    (hb : b ∈ root.values) (h : branchSchema defs b = some sub) : .object sub ∈ root.values := by
  unfold branchSchema at h
  split at h
  · split at h
    · exact resolveRef_mem hdefs h
    · obtain rfl := some.inj h
      exact hb
  · simp at h

theorem addProperties_mem (hsub : .object sub ∈ root.values) {dst : Schema F}
    (hdst : ∀ e ∈ dst, e.2 ∈ root.values) : ∀ e ∈ addProperties dst sub, e.2 ∈ root.values := by
  unfold addProperties
  split
  next p hp =>
    exact forall_mem_setAll hdst fun e he => member_mem (get_mem hsub hp) he
  · exact hdst

theorem collectAllOfProps_mem (hdefs : DefsIn defs root) (levels : Nat)
    {branches : List (JsonValue (GoNumber F))} (hbranches : ∀ b ∈ branches, b ∈ root.values)
    {acc : Schema F × Nat} (hacc : ∀ e ∈ acc.1, e.2 ∈ root.values) :
    ∀ e ∈ (collectAllOfProps defs levels branches acc).1, e.2 ∈ root.values := by
  induction levels generalizing branches acc with
  | zero => exact hacc
  | succ levels ih =>
    refine foldlRecOn (motive := fun acc : Schema F × Nat => ∀ e ∈ acc.1, e.2 ∈ root.values) branches _ hacc
      fun acc hacc b hb => ?_
    unfold collectBranch
    cases hsub : branchSchema defs b with
    | none => exact hacc
    | some sub =>
      have hmem := branchSchema_mem hdefs (hbranches b hb) hsub
      have hprops := addProperties_mem hmem hacc
      dsimp only
      split
      next nested hnested =>
        exact ih (fun v hv => item_mem (get_mem hmem hnested) hv) hprops
      · exact hprops

theorem firstBranch_mem (hschema : .object schema ∈ root.values)
    (h : firstBranch schema key = some sub) : .object sub ∈ root.values := by
  unfold firstBranch at h
  split at h
  next first rest harr =>
    exact object?_mem (item_mem (get_mem hschema harr) mem_cons_self) h
  · simp at h

theorem tupleItems_mem (hschema : .object schema ∈ root.values)
    {tuple : List (JsonValue (GoNumber F))} (h : tupleItems schema = some tuple) :
    ∀ v ∈ tuple, v ∈ root.values := by
  unfold tupleItems at h
  split at h
  next p items harr =>
    obtain rfl := some.inj h
    exact fun v hv => item_mem (get_mem hschema harr) hv
  · split at h
    next p items harr =>
      obtain rfl := some.inj h
      exact fun v hv => item_mem (get_mem hschema harr) hv
    · simp at h

end

/-! ## What a step of the walk spends -/

/-- The budget pays for the calls, and each call for at most `n` branches. -/
structure Spent (n : Nat) (st st' : SynthState) : Prop where
  calls : (st'.calls : Int) + st'.budget = st.calls + st.budget
  nonneg : 0 ≤ st'.budget
  branches : st'.branches + st.calls * n ≤ st.branches + st'.calls * n

section
variable {n : Nat} {st st' st'' : SynthState}

theorem Spent.refl (h : 0 ≤ st.budget) : Spent n st st := ⟨rfl, h, le_rfl⟩

theorem Spent.trans (h : Spent n st st') (h' : Spent n st' st'') : Spent n st st'' := by
  refine ⟨h'.calls.trans h.calls, h'.nonneg, ?_⟩
  have hleft := h.branches
  have hright := h'.branches
  omega

/-- A call with budget left may examine `n` branches itself. -/
theorem Spent.charge (h : 0 < st.budget) {k : Nat} (hk : k ≤ n) :
    Spent n st (st.charge.examine k) := by
  refine ⟨?_, ?_, ?_⟩
  · simp only [SynthState.examine, SynthState.charge]
    omega
  · simp only [SynthState.examine, SynthState.charge]
    omega
  · simp only [SynthState.examine, SynthState.charge, Nat.add_mul, Nat.one_mul]
    omega

theorem synthEach_spent {synth : Schema F → SynthState → JsonValue (GoNumber F) × SynthState}
    {schemas : List (Option (Schema F))}
    (hsynth : ∀ schema, some schema ∈ schemas → ∀ st, 0 < st.budget →
      Spent n st (synth schema st).2) (h : 0 ≤ st.budget) :
    Spent n st (synthEach synth schemas st).2 := by
  induction schemas generalizing st with
  | nil => exact .refl h
  | cons s schemas ih =>
    have hrest : ∀ st, 0 ≤ st.budget → Spent n st (synthEach synth schemas st).2 := fun st hst =>
      ih (fun schema hmem => hsynth schema (mem_cons_of_mem _ hmem)) hst
    cases s with
    | none =>
      rw [synthEach]
      split
      · exact .refl h
      · exact hrest st h
    | some schema =>
      rw [synthEach]
      split
      · exact .refl h
      next hpos =>
        have hfirst := hsynth schema mem_cons_self st (by omega)
        exact hfirst.trans (hrest _ hfirst.nonneg)

end

/-! ## The walk -/

def nodes (schema : Schema F) : Nat := (JsonValue.object schema).values.length

/-- No `allOf` in the schema unfolds to more than `n` branches. -/
def AllOfWithin (n : Nat) (schema : Schema F) : Prop :=
  ∀ v ∈ (JsonValue.object schema).values, ∀ m ∈ v.object?,
    allOfBranches (extractDefs schema) (maxSynthDepth + 1) (allOf m) ≤ n

/-- No `allOf` in the schema unfolds to more branches than the schema has nodes. -/
def AllOfFits (schema : Schema F) : Prop := AllOfWithin (nodes schema) schema

instance (n : Nat) (schema : Schema F) : Decidable (AllOfWithin n schema) :=
  inferInstanceAs (Decidable (∀ v ∈ (JsonValue.object schema).values, ∀ m ∈ v.object?,
    allOfBranches (extractDefs schema) (maxSynthDepth + 1) (allOf m) ≤ n))

instance (schema : Schema F) : Decidable (AllOfFits schema) :=
  inferInstanceAs (Decidable (AllOfWithin (nodes schema) schema))

theorem exists_allOfWithin (schema : Schema F) : ∃ n, AllOfWithin n schema := by
  let unfolded : JsonValue (GoNumber F) → Nat := fun v =>
    allOfBranches (extractDefs schema) (maxSynthDepth + 1) ((v.object?.map allOf).getD [])
  refine ⟨((object schema).values.map unfolded).sum, fun v hv m hm => ?_⟩
  have hle : unfolded v ≤ ((object schema).values.map unfolded).sum :=
    le_sum_of_mem (mem_map_of_mem hv)
  have hm : v.object? = some m := hm
  simpa only [unfolded, hm, map_some, getD_some] using hle

section
variable [GoMath F] {root : JsonValue (GoNumber F)} {c : SynthCtx F} {n : Nat}
  {synth : Schema F → SynthState → JsonValue (GoNumber F) × SynthState}
  (hsynth : ∀ schema, .object schema ∈ root.values → ∀ st, 0 < st.budget →
    Spent n st (synth schema st).2)
variable {st : SynthState} {schema : Schema F}
include hsynth

omit [GoMath F] in
theorem synthObject_spent (sh : Shuffle) {props : Schema F} (hprops : ∀ e ∈ props, e.2 ∈ root.values)
    (h : 0 ≤ st.budget) : Spent n st (synthObject sh synth props st).2 := by
  refine synthEach_spent (fun schema hmem => ?_) h
  obtain ⟨e, he, hobject⟩ := mem_map.mp hmem
  exact hsynth schema (object?_mem (hprops e (sh.mem_list.mp he)) hobject)

theorem synthArray_spent (hschema : .object schema ∈ root.values)
    (h : 0 ≤ st.budget) : Spent n st (synthArray synth schema st).2 := by
  unfold synthArray
  split
  next tuple htuple =>
    refine synthEach_spent (fun s hmem => ?_) h
    obtain ⟨v, hv, hobject⟩ := mem_map.mp hmem
    exact hsynth s (object?_mem (tupleItems_mem hschema htuple v hv) hobject)
  · split
    next items hitems =>
      refine synthEach_spent (fun s hmem => ?_) h
      obtain rfl : s = items := by simpa using eq_of_mem_replicate hmem
      exact hsynth s (get_mem hschema hitems)
    · exact .refl h

theorem synthTyped_spent (hschema : .object schema ∈ root.values)
    (h : 0 ≤ st.budget) : Spent n st (synthTyped c synth schema st).2 := by
  unfold synthTyped
  split
  · refine synthObject_spent hsynth _ (fun e he => ?_) h
    split at he
    next p hp =>
      exact member_mem (get_mem hschema hp) he
    · simp at he
  · split
    · exact synthArray_spent hsynth hschema h
    · exact .refl h

omit [GoMath F] in
theorem synthAllOf_spent (hdefs : DefsIn c.defs root)
    (hschema : .object schema ∈ root.values) {first : JsonValue (GoNumber F)}
    {rest : List (JsonValue (GoNumber F))} (hallOf : get schema "allOf" = some (.array (first :: rest)))
    {left : Nat} (hfits : allOfBranches c.defs (left + 2) (first :: rest) ≤ n)
    (h : 0 < st.budget) (h' : 0 < st.charge.budget) :
    Spent n st (synthAllOf c left synth schema first rest st.charge).2 := by
  have hbranches : ∀ b ∈ first :: rest, b ∈ root.values := fun b hb =>
    item_mem (get_mem hschema hallOf) hb
  have hcount := collectAllOfProps_branches c.defs (left + 2) (first :: rest) (addProperties [] schema, 0)
  rw [Nat.zero_add] at hcount
  have hcharge : Spent n st (st.charge.examine
      (collectAllOfProps c.defs (left + 2) (first :: rest) (addProperties [] schema, 0)).2) :=
    .charge h (by rw [hcount]; exact hfits)
  refine hcharge.trans ?_
  unfold synthAllOf
  dsimp only
  split
  · refine synthObject_spent hsynth _ ?_ (Int.le_of_lt h')
    exact collectAllOfProps_mem hdefs _ hbranches (addProperties_mem hschema (by simp))
  · split
    · exact hsynth _ (hbranches _ mem_cons_self) _ h'
    · exact .refl (Int.le_of_lt h')

end

section
variable [GoMath F] {schema : Schema F} {order : Nat → Shuffle}
variable {n : Nat}

/-- A call of `synth` with budget left and at most `maxSynthDepth` levels. -/
theorem synth_spent (hwithin : AllOfWithin n schema) {left : Nat} (hleft : left ≤ maxSynthDepth)
    {sub : Schema F} (hsub : .object sub ∈ (object schema).values) {st : SynthState}
    (h : 0 < st.budget) : Spent n st (synth ⟨extractDefs schema, order⟩ left sub st).2 := by
  have hdefs := defsIn_extractDefs schema
  induction left generalizing sub st with
  | zero => exact .charge h (Nat.zero_le _)
  | succ left ih =>
    have hcharge : Spent n st st.charge := .charge h (Nat.zero_le _)
    rw [synth]
    split
    · exact hcharge
    next hbudget =>
      have hpos : 0 < st.charge.budget := by omega
      have hrec : ∀ sub, .object sub ∈ (object schema).values → ∀ st, 0 < st.budget →
          Spent n st (synth ⟨extractDefs schema, order⟩ left sub st).2 :=
        fun sub hmem st hst => ih (by omega) hmem hst
      split
      · exact hcharge
      · split
        · exact hcharge
        · split
          · split
            next resolved hresolved =>
              exact hcharge.trans (hrec resolved (resolveRef_mem hdefs hresolved) _ hpos)
            · exact hcharge
          · split
            next first hfirst =>
              have hmem : .object first ∈ (object schema).values := by
                rcases or_eq_some_iff.mp hfirst with hany | ⟨-, hone⟩
                · exact firstBranch_mem hsub hany
                · exact firstBranch_mem hsub hone
              exact hcharge.trans (hrec first hmem _ hpos)
            · split
              next first rest hallOf =>
                have heq : allOf sub = first :: rest := by simp [allOf, hallOf]
                have hunfolded := hwithin _ hsub sub rfl
                rw [heq] at hunfolded
                refine synthAllOf_spent hrec hdefs hsub hallOf ?_ h hpos
                exact (allOfBranches_mono _ (by omega) _).trans hunfolded
              · exact hcharge.trans (synthTyped_spent hrec hsub (Int.le_of_lt hpos))

theorem synthSchema_spent (order : Nat → Shuffle) (hwithin : AllOfWithin n schema) :
    Spent n ⟨maxSynthNodes, 0, 0⟩ (synthSchema order schema).2 :=
  synth_spent hwithin le_rfl (mem_values_self _) (by decide)

theorem synthSchema_calls_le (order : Nat → Shuffle) (schema : Schema F) :
    (synthSchema order schema).2.calls ≤ maxSynthNodes := by
  obtain ⟨n, hwithin⟩ := exists_allOfWithin schema
  have hspent := synthSchema_spent order hwithin
  have htotal := hspent.calls
  have hnonneg := hspent.nonneg
  dsimp only at htotal
  omega

end

end

/-! ### Schemas with an allOf -/

instance : GoMath Rat where
  ceil x := x.ceil
  floor x := x.floor
  isFinite _ := true

def inherited : Schema Rat :=
  [(bytes "allOf", .array
      [.object [(bytes "$ref", .string (bytes "#/$defs/Base"))],
        .object [(bytes "properties", .object [(bytes "age", .object [(bytes "type", .string (bytes "integer"))])])]]),
    (bytes "$defs", .object [(bytes "Base", .object
      [(bytes "properties", .object [(bytes "name", .object [(bytes "type", .string (bytes "string"))])])])])]

section Tripling

def tripleRef : Schema Rat := [(bytes "$ref", .string (bytes "#/$defs/A"))]

def tripleBranches : List (JsonValue (GoNumber Rat)) :=
  [.object tripleRef, .object tripleRef, .object tripleRef]

def tripleDef : Schema Rat := [(bytes "allOf", .array tripleBranches)]

def tripleDefs : Schema Rat := [(bytes "A", .object tripleDef)]

def tripling : Schema Rat :=
  [(bytes "$ref", .string (bytes "#/$defs/A")), (bytes "$defs", .object tripleDefs)]

def tripleCtx : SynthCtx Rat := ⟨tripleDefs, fun _ => Shuffle.stored⟩

/-- Each level has three times the branches of the level above. -/
theorem allOfBranches_triple (levels : Nat) :
    2 * allOfBranches tripleDefs levels tripleBranches + 3 = 3 ^ (levels + 1) := by
  induction levels with
  | zero => rfl
  | succ levels ih =>
    have hnested : ((branchSchema tripleDefs (.object tripleRef)).map allOf).getD [] =
        tripleBranches := by
      rfl
    have hstep : allOfBranches tripleDefs (levels + 1) tripleBranches =
        3 * (1 + allOfBranches tripleDefs levels tripleBranches) := by
      rw [allOfBranches]
      conv_lhs => rw [tripleBranches]
      simp only [map_cons, map_nil, sum_cons, sum_nil, hnested]
      omega
    omega

theorem collectAllOfProps_triple (levels k : Nat) :
    (collectAllOfProps tripleDefs levels tripleBranches ([], k)).1 = [] := by
  induction levels generalizing k with
  | zero => rfl
  | succ levels ih =>
    have hbranch : ∀ acc : Schema Rat × Nat, acc.1 = [] →
        (collectBranch tripleDefs (collectAllOfProps tripleDefs levels) acc (.object tripleRef)).1 = [] := by
      rintro ⟨m, k⟩ rfl
      exact ih (k + 1)
    exact hbranch _ (hbranch _ (hbranch _ rfl))

theorem synth_tripleRef (left : Nat) (st : SynthState) :
    synth tripleCtx (left + 1) tripleRef st =
      if st.charge.budget ≤ 0 then (zeroForSchema tripleDefs tripleRef, st.charge)
      else synth tripleCtx left tripleDef st.charge := by
  rfl

theorem synthAllOf_triple (left : Nat) (st : SynthState) :
    synthAllOf tripleCtx left (synth tripleCtx left) tripleDef (.object tripleRef)
        [.object tripleRef, .object tripleRef] st = synth tripleCtx left tripleRef
        (st.examine (allOfBranches tripleDefs (left + 2) tripleBranches)) := by
  have hprops := collectAllOfProps_triple (left + 2) 0
  have hcount := collectAllOfProps_branches tripleDefs (left + 2) tripleBranches ([], 0)
  rw [Nat.zero_add] at hcount
  have hcollect : collectAllOfProps tripleCtx.defs (left + 2)
      (.object tripleRef :: [.object tripleRef, .object tripleRef]) (addProperties [] tripleDef, 0) =
      ([], allOfBranches tripleDefs (left + 2) tripleBranches) := Prod.ext hprops hcount
  rw [synthAllOf, hcollect]
  rfl

theorem synth_tripleDef (left : Nat) (st : SynthState) :
    synth tripleCtx (left + 1) tripleDef st =
      if st.charge.budget ≤ 0 then (zeroForSchema tripleDefs tripleDef, st.charge)
      else synth tripleCtx left tripleRef
        (st.charge.examine (allOfBranches tripleDefs (left + 2) tripleBranches)) := by
  rw [← synthAllOf_triple]
  rfl

theorem branches_triple_le (left : Nat) (st : SynthState) :
    st.branches ≤ (synth tripleCtx left tripleRef st).2.branches ∧
      st.branches ≤ (synth tripleCtx left tripleDef st).2.branches := by
  induction left generalizing st with
  | zero => exact ⟨le_rfl, le_rfl⟩
  | succ left ih =>
    rw [synth_tripleRef, synth_tripleDef]
    constructor
    · split
      · exact le_rfl
      · exact (ih st.charge).2
    · split
      · exact le_rfl
      · have hnext := (ih (st.charge.examine (allOfBranches tripleDefs (left + 2) tripleBranches))).1
        exact Nat.le_trans (Nat.le_add_right st.branches _) hnext

end Tripling

end MockAgents.Adapter
