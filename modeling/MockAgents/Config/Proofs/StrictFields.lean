import MockAgents.Config.StrictFields
import MockAgents.Lib.Descent
/-!
# When the unknown-field check comes to an end

The type shrinks with every call of the walk except at a merge key, so the walk ends exactly
if no mapping that it reaches merges itself.
-/

namespace MockAgents.Config

open Lib Lib.Utf8 Lib.Descent Relation List GoType

/-! ## The calls of the walk -/

def calls (doc : Document) (c : Nat × GoType) : List (Nat × GoType) :=
  match doc.resolve c.1, c.2.base with
  | some node, .struct fields =>
    if node.kind ≠ .mappingNode then []
    else (pairs node.content).filterMap fun e =>
      if doc.value e.1 = mergeKey then some (e.2, .struct fields)
      else (fields.lookup (doc.value e.1)).map fun ft => (e.2, ft)
  | some node, .map elem =>
    if node.kind ≠ .mappingNode then [] else (pairs node.content).map fun e => (e.2, elem)
  | some node, .slice elem =>
    if node.kind ≠ .sequenceNode then [] else node.content.map fun c => (c, elem)
  | _, _ => []

theorem isSome_foldlM {α β : Type} {f : β → α → Option β} {p : α → Bool}
    (h : ∀ b a, (f b a).isSome = p a) (l : List α) (b : β) : (l.foldlM f b).isSome = l.all p := by
  induction l generalizing b with
  | nil => rfl
  | cons a l ih =>
    rw [foldlM_cons, all_cons, ← h b a]
    cases f b a with
    | none => rfl
    | some b' => exact ih b'

theorem all_zipIdx {α : Type} (l : List α) (p : α → Bool) :
    (l.zipIdx.all fun e => p e.1) = l.all p := by
  conv_rhs => rw [← zipIdx_map_fst 0 l, all_map]
  rfl

section
variable {env : Env} {doc : Document} {file : Bytes}

/-- The walk returns within a depth if its calls end within it. -/
theorem isSome_walkUnknownFields (depth a : Nat) (t : GoType) (path : Bytes)
    (errs : List ValidationError) :
    (walkUnknownFields env doc file depth a t path errs).isSome = ends (calls doc) depth (a, t) := by
  induction depth generalizing a t path errs with
  | zero => rfl
  | succ depth ih =>
    rw [ends, walkUnknownFields, calls]
    generalize doc.resolve a = node, t.base = s
    cases node with
    | none => rfl
    | some node =>
      cases s with
      | leaf => rfl
      | custom => rfl
      | pointer elem => rfl
      | struct fields =>
        dsimp only
        split
        · rfl
        · rw [all_filterMap]
          refine isSome_foldlM (fun errs e => ?_) _ errs
          split
          · exact ih ..
          · cases fields.lookup (doc.value e.1) with
            | none => rfl
            | some ft => exact ih ..
      | map elem =>
        dsimp only
        split
        · rfl
        · rw [all_map]
          exact isSome_foldlM (fun errs e => ih e.2 elem _ errs) _ errs
      | slice elem =>
        dsimp only
        split
        · rfl
        · rw [all_map, ← all_zipIdx]
          exact isSome_foldlM (fun errs e => ih e.1 elem _ errs) _ errs

theorem isSome_unknownFieldErrors (depth : Nat) (target : GoType) :
    (unknownFieldErrors env doc file depth target).isSome =
      doc.content.all fun c => ends (calls doc) depth (c, target) :=
  isSome_foldlM (fun errs c => isSome_walkUnknownFields depth c target [] errs) _ []

end

/-! ## Merge keys -/

theorem sizeOf_base_le : ∀ t : GoType, sizeOf t.base ≤ sizeOf t
  | .pointer elem => by
    have hle := sizeOf_base_le elem
    simp only [base, pointer.sizeOf_spec]
    omega
  | .leaf | .custom | .struct _ | .map _ | .slice _ => le_rfl

theorem sizeOf_lookup_lt {fields : List (Bytes × GoType)} {name : Bytes} {ft : GoType}
    (h : fields.lookup name = some ft) : sizeOf ft < sizeOf (struct fields) := by
  obtain ⟨before, after, rfl, -⟩ := lookup_eq_some_iff.mp h
  have hmem : sizeOf (name, ft) < sizeOf (before ++ (name, ft) :: after) :=
    sizeOf_lt_of_mem (by simp)
  simp only [Prod.mk.sizeOf_spec] at hmem
  simp only [struct.sizeOf_spec]
  omega

/-- The mapping one node stands for has the other as the value of a merge key. -/
def Document.Merges (doc : Document) (a b : Nat) : Prop :=
  ∃ node ∈ doc.resolve a, node.kind = .mappingNode ∧
    ∃ key, (key, b) ∈ pairs node.content ∧ doc.value key = mergeKey

section
variable {doc : Document} {a b : Nat} {t t' : GoType} {fields : List (Bytes × GoType)}

/-- A call that does not follow a merge key is one at a smaller type. -/
theorem makes_cases (h : Makes (calls doc) (a, t) (b, t')) :
    (∃ fields, t.base = .struct fields ∧ t' = .struct fields ∧ doc.Merges a b) ∨
      sizeOf t' < sizeOf t := by
  have hbase := sizeOf_base_le t
  rw [Makes, calls] at h
  cases hnode : doc.resolve a with
  | none => simp [hnode] at h
  | some node =>
    simp only [hnode] at h
    cases hs : t.base with
    | leaf => simp [hs] at h
    | custom => simp [hs] at h
    | pointer elem => simp [hs] at h
    | struct fields =>
      simp only [hs] at h
      split at h
      · simp at h
      next hkind =>
        obtain ⟨⟨key, val⟩, hpair, hcall⟩ := mem_filterMap.mp h
        split at hcall
        next hmerge =>
          obtain ⟨rfl, rfl⟩ : val = b ∧ struct fields = t' := by simpa using hcall
          exact .inl ⟨fields, rfl, rfl, node, hnode, not_not.mp hkind, key, hpair, hmerge⟩
        · obtain ⟨ft, hlookup, heq⟩ := Option.map_eq_some_iff.mp hcall
          obtain ⟨rfl, rfl⟩ : val = b ∧ ft = t' := by simpa using heq
          have hlt := sizeOf_lookup_lt hlookup
          rw [hs] at hbase
          exact .inr (by omega)
    | map elem =>
      simp only [hs] at h
      split at h
      · simp at h
      · obtain ⟨e, -, heq⟩ := mem_map.mp h
        obtain ⟨-, rfl⟩ : e.2 = b ∧ elem = t' := by simpa using heq
        rw [hs, GoType.map.sizeOf_spec] at hbase
        exact .inr (by omega)
    | slice elem =>
      simp only [hs] at h
      split at h
      · simp at h
      · obtain ⟨c, -, heq⟩ := mem_map.mp h
        obtain ⟨-, rfl⟩ : c = b ∧ elem = t' := by simpa using heq
        rw [hs, slice.sizeOf_spec] at hbase
        exact .inr (by omega)

theorem makes_of_merges (ht : t.base = .struct fields) (h : doc.Merges a b) :
    Makes (calls doc) (a, t) (b, .struct fields) := by
  obtain ⟨node, hnode, hkind, key, hpair, hmerge⟩ := h
  rw [Makes, calls, Option.mem_def.mp hnode, ht]
  simp only [hkind, ne_eq, not_true_eq_false, if_false]
  exact mem_filterMap.mpr ⟨(key, b), hpair, if_pos hmerge⟩

theorem lt_length_of_merges (h : doc.Merges a b) : a < doc.nodes.length := by
  obtain ⟨node, hnode, -⟩ := h
  obtain ⟨n, hn, -⟩ := Option.bind_eq_some_iff.mp (Option.mem_def.mp hnode)
  exact (List.getElem?_eq_some_iff.mp hn).choose

/-- A chain of merges is a chain of calls at one type. -/
theorem reaches_of_merges (ht : t.base = .struct fields) (h : TransGen doc.Merges a b) :
    TransGen (Makes (calls doc)) (a, t) (b, .struct fields) := by
  induction h with
  | single h => exact .single (makes_of_merges ht h)
  | tail _ h ih => exact .tail ih (makes_of_merges rfl h)

end

/-! ## The end of the walk -/

section
variable {doc : Document} {root : Nat × GoType}

/-- No mapping reached at a struct type from the root of a walk merges itself. -/
def Document.MergesEnd (doc : Document) (root : Nat × GoType) : Prop :=
  ∀ a t fields, ReflTransGen (Makes (calls doc)) root (a, t) → t.base = .struct fields →
    ¬ TransGen doc.Merges a a

theorem mergesEnd_of_acc (h : Acc (flip (Makes (calls doc))) root) : doc.MergesEnd root := by
  intro a t fields hreach ht hcycle
  have hcalls := reaches_of_merges ht hcycle
  have hacc := acc_of_reached h (hreach.trans hcalls.to_reflTransGen)
  exact not_cycle_of_acc hacc (reaches_of_merges rfl hcycle)

/-- The merges from a mapping that is reached come to an end. -/
theorem Document.MergesEnd.acc_merges (h : doc.MergesEnd root) {a : Nat} {t : GoType}
    {fields : List (Bytes × GoType)} (hreach : ReflTransGen (Makes (calls doc)) root (a, t))
    (ht : t.base = .struct fields) : Acc (flip doc.Merges) a := by
  refine acc_of_no_cycle (S := Finset.range doc.nodes.length)
    (fun a b hab => Finset.mem_range.mpr (lt_length_of_merges hab)) fun b hab => ?_
  rcases reflTransGen_iff_eq_or_transGen.mp hab with rfl | hab
  · exact h b t fields hreach ht
  · exact h b _ fields (hreach.trans (reaches_of_merges ht hab).to_reflTransGen) rfl

theorem Document.MergesEnd.acc (h : doc.MergesEnd root) {c : Nat × GoType}
    (hreach : ReflTransGen (Makes (calls doc)) root c) : Acc (flip (Makes (calls doc))) c := by
  -- by induction on the size of the type, and at one struct type on the merges that are left
  induction hn : sizeOf c.2 using Nat.strong_induction_on generalizing c with
  | _ n ih =>
    have hsmaller : ∀ {a t b t'}, ReflTransGen (Makes (calls doc)) root (a, t) → sizeOf t ≤ n →
        Makes (calls doc) (a, t) (b, t') → sizeOf t' < sizeOf t →
        Acc (flip (Makes (calls doc))) (b, t') := by
      intro a t b t' hat hle hmakes hlt
      exact ih (sizeOf t') (by omega) (hat.tail hmakes) rfl
    have hstruct : ∀ {fields a}, Acc (flip doc.Merges) a → ∀ t, t.base = .struct fields →
        ReflTransGen (Makes (calls doc)) root (a, t) → sizeOf t ≤ n →
        Acc (flip (Makes (calls doc))) (a, t) := by
      intro fields a hmerges
      induction hmerges with
      | intro a _ hinner =>
        intro t ht hat hle
        refine Acc.intro _ fun ⟨b, t'⟩ hmakes => ?_
        rcases makes_cases hmakes with ⟨fields', hbase, rfl, hab⟩ | hlt
        · obtain rfl : fields = fields' := by simpa [ht] using hbase
          have hsize := sizeOf_base_le t
          rw [ht] at hsize
          exact hinner b hab _ rfl (hat.tail hmakes) (by omega)
        · exact hsmaller hat hle hmakes hlt
    obtain ⟨a, t⟩ := c
    by_cases ht : ∃ fields, t.base = .struct fields
    · obtain ⟨fields, ht⟩ := ht
      exact hstruct (h.acc_merges hreach ht) t ht hreach (Nat.le_of_eq hn)
    · refine Acc.intro _ fun ⟨b, t'⟩ hmakes => ?_
      rcases makes_cases hmakes with ⟨fields, hbase, -⟩ | hlt
      · exact absurd ⟨fields, hbase⟩ ht
      · exact hsmaller hreach (Nat.le_of_eq hn) hmakes hlt

end

/-- The check ends on an input exactly if it has no document to walk, or no mapping that it
reaches at a struct type merges itself, be it directly or through other mappings. -/
theorem unknownAgentFields_ends (env : Env) (data : Bytes) :
    (∃ depth, (unknownAgentFields env depth data).isSome = true) ↔
      ∀ doc, agentDocument env data = .ok doc →
        ∀ c ∈ doc.content, doc.MergesEnd (c, .pointer agentDefinitionType) := by
  cases hdoc : agentDocument env data with
  | error errs => simp [unknownAgentFields, hdoc]
  | ok doc =>
    have hdepth : ∀ depth, (unknownAgentFields env depth data).isSome =
        doc.content.all fun c => ends (calls doc) depth (c, .pointer agentDefinitionType) := by
      intro depth
      rw [unknownAgentFields, hdoc]
      exact isSome_unknownFieldErrors depth _
    constructor
    · rintro ⟨depth, hends⟩ doc' hdoc' c hc
      obtain rfl : doc = doc' := by simpa using hdoc'
      rw [hdepth, all_eq_true] at hends
      exact mergesEnd_of_acc (acc_of_ends (hends c hc))
    · intro hmerges
      have hends : ∀ c ∈ doc.content.map fun c => (c, pointer agentDefinitionType),
          ∃ n, ends (calls doc) n c = true := by
        intro c hc
        obtain ⟨c, hcontent, rfl⟩ := mem_map.mp hc
        exact exists_ends_iff.mpr ((hmerges doc rfl c hcontent).acc .refl)
      obtain ⟨depth, hall⟩ := exists_ends_all hends
      exact ⟨depth, by rw [hdepth, ← hall, all_map]; rfl⟩

/-! ### A mapping that merges itself -/

/-- An anchored mapping with one key, a merge key whose value refers to the anchor. -/
def selfMerging : Document where
  content := [0]
  nodes :=
    [⟨.mappingNode, bytes "!!map", [], 1, 1, none, [1, 2]⟩,
      ⟨.scalarNode, bytes "!!merge", mergeKey, 1, 5, none, []⟩,
      ⟨.aliasNode, [], bytes "a", 1, 9, some 0, []⟩]
  alias_anchored := by
    intro n hn hkind
    simp only [List.mem_cons, List.not_mem_nil, or_false] at hn
    rcases hn with rfl | rfl | rfl
    · simp at hkind
    · simp at hkind
    · exact ⟨0, _, rfl, rfl, by simp⟩

def selfMergingData : Bytes := bytes "&a \x7b<<: *a\x7d\n"

def selfMergingEnv : Env where
  stream data := if data = selfMergingData then ⟨[selfMerging], false⟩ else ⟨[], true⟩
  jsonToYAML _ := none
  toLower name := name
  equalFold a b := decide (a = b)
  printable _ := true

/-- The walk of a mapping that merges itself does not end within any depth. -/
theorem selfMerging_does_not_end :
    ¬ ∃ depth, (unknownAgentFields selfMergingEnv depth selfMergingData).isSome := by
  have hdoc : agentDocument selfMergingEnv selfMergingData = .ok selfMerging := by rfl
  have hcycle : Makes (calls selfMerging) (2, agentDefinitionType) (2, agentDefinitionType) := by
    have hcalls : calls selfMerging (2, agentDefinitionType) = [(2, agentDefinitionType)] := rfl
    simp [Makes, hcalls]
  have hroot : Makes (calls selfMerging) (0, .pointer agentDefinitionType) (2, agentDefinitionType) := by
    have hcalls : calls selfMerging (0, .pointer agentDefinitionType) = [(2, agentDefinitionType)] := rfl
    simp [Makes, hcalls]
  rintro ⟨depth, hends⟩
  rw [unknownAgentFields, hdoc] at hends
  rw [isSome_unknownFieldErrors, all_eq_true] at hends
  have hacc := acc_of_reached (acc_of_ends (hends 0 mem_cons_self)) (.single hroot)
  exact irrefl_of_acc hacc hcycle

end MockAgents.Config
