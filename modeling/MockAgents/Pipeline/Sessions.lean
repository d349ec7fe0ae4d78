import MockAgents.Lib.Keys
import MockAgents.Pipeline.Validator
/-!
# Engine sessions of pipeline nodes

A pipeline run addresses each node's engine session by its session id, the pipeline name
and the node id, joined by double colons; the engine puts tenant and agent name before it.
Tenants, agent names and pipeline names do not contain their separators.  Session ids and
node ids may, so that a session id that ends like another run's key, and a node id that
starts like one, can meet.
-/

namespace MockAgents.Pipeline

open Lib Lib.Utf8 List

def sessionSeparator : Bytes := bytes "::"

/-- The session id `invokeNode` gives the engine. -/
def scopedSession (sessionID : Bytes) (pipelineName nodeID : String) : Bytes :=
  sessionID ++ sessionSeparator ++ bytes pipelineName ++ sessionSeparator ++ bytes nodeID

def scopedSessionKey (tenantID agentName sessionID : Bytes) : Bytes :=
  tenantID ++ 0 :: (agentName ++ 0 :: sessionID)

/-! ## Joined by double colons -/

theorem sessionSeparator_eq : sessionSeparator = [58, 58] := by
  simp [sessionSeparator, bytes, encode, String.utf8EncodeChar]

/-- A non-empty text without a colon, as a validated pipeline name is. -/
structure Plain (p : Bytes) : Prop where
  ne_nil : p ≠ []
  noColon : 58 ∉ p

/-- One session id goes on into another's key: it is that session id, `::`, the pipeline
name there and `W`, while the node id there is `V` and what is left of the key. -/
def Straddles (sid p n sid' p' n' : Bytes) : Prop :=
  ∃ V W : Bytes, [58, 58] ++ V = W ++ [58, 58] ∧ sid = sid' ++ [58, 58] ++ p' ++ W ∧
    n' = V ++ p ++ [58, 58] ++ n

section
variable {sid p n sid' p' n' : Bytes}

theorem joined_eq_of_straddles (h : Straddles sid p n sid' p' n') :
    sid ++ [58, 58] ++ p ++ [58, 58] ++ n = sid' ++ [58, 58] ++ p' ++ [58, 58] ++ n' := by
  obtain ⟨V, W, hVW, rfl, rfl⟩ := h
  calc sid' ++ [58, 58] ++ p' ++ W ++ [58, 58] ++ p ++ [58, 58] ++ n
      = sid' ++ [58, 58] ++ p' ++ (W ++ [58, 58]) ++ p ++ [58, 58] ++ n := by
        simp
    _ = sid' ++ [58, 58] ++ p' ++ [58, 58] ++ (V ++ p ++ [58, 58] ++ n) := by
        rw [← hVW]
        simp

theorem Plain.ne_concat_colon (hp : Plain p) (x y : Bytes) : x ++ p ≠ y ++ [58] := by
  intro h
  obtain ⟨q, a, rfl⟩ := eq_nil_or_concat p |>.resolve_left hp.ne_nil
  rw [concat_eq_append, ← append_assoc] at h
  obtain ⟨-, ha⟩ := append_inj' h rfl
  exact hp.noColon (by simp [cons.inj ha |>.1])

/-- A longer node id takes over what stands before the shorter one. -/
theorem straddles_of_append (hp : Plain p) {Y : Bytes} (hY : Y ≠ [])
    (h : sid ++ [58, 58] ++ p ++ [58, 58] = sid' ++ [58, 58] ++ p' ++ [58, 58] ++ Y) :
    Straddles sid p n sid' p' (Y ++ n) := by
  -- `Y` reaches back over the separator before the shorter node id
  have hZ : ∃ Z, Y = Z ++ [58, 58] ∧
      sid ++ [58, 58] ++ p = sid' ++ [58, 58] ++ p' ++ [58, 58] ++ Z := by
    rcases append_eq_append_iff.mp h with ⟨Z, hC, hsep⟩ | ⟨Z, hB, hY'⟩
    · match Z, hC, hsep with
      | [], hC, hsep => exact ⟨[], by simpa using hsep.symm, by simpa using hC.symm⟩
      | [a], hC, hsep =>
        obtain ⟨rfl, hY'⟩ := cons.inj hsep
        exfalso
        have hends : sid' ++ [58, 58] ++ p' ++ [58] ++ [58] = sid ++ [58, 58] ++ p ++ [58] := by
          simpa using hC
        exact hp.ne_concat_colon _ _ (append_cancel_right hends).symm
      | a :: b :: Z, hC, hsep =>
        have hlen := congrArg List.length hsep
        have hpos := length_pos_iff.mpr hY
        simp only [length_append, length_cons, length_nil] at hlen
        omega
    · exact ⟨Z, hY', hB⟩
  obtain ⟨Z, rfl, hB⟩ := hZ
  -- and over the whole pipeline name
  have hV : ∃ V, Z = V ++ p ∧ sid ++ [58, 58] = sid' ++ [58, 58] ++ p' ++ [58, 58] ++ V := by
    rcases append_eq_append_iff.mp hB with ⟨U, hC, hpU⟩ | ⟨V, hsid, hZ⟩
    · rcases eq_nil_or_concat U with rfl | ⟨U, a, rfl⟩
      · exact ⟨[], by simpa using hpU.symm, by simpa using hC.symm⟩
      · exfalso
        have hends : (sid' ++ [58, 58] ++ p' ++ [58]) ++ [58] = (sid ++ [58, 58] ++ U) ++ [a] := by
          simpa using hC
        obtain ⟨-, ha⟩ := append_inj' hends rfl
        refine hp.noColon ?_
        rw [hpU, (cons.inj ha).1]
        simp
    · exact ⟨V, hZ, hsid⟩
  obtain ⟨V, rfl, hsid⟩ := hV
  have hW : ∃ W, [58, 58] ++ V = W ++ [58, 58] ∧ sid = sid' ++ [58, 58] ++ p' ++ W := by
    have hsid' : sid ++ [58, 58] = (sid' ++ [58, 58] ++ p') ++ ([58, 58] ++ V) := by
      simpa using hsid
    rcases append_eq_append_iff.mp hsid' with ⟨U, hD, hsep⟩ | ⟨W, hs, hsep⟩
    · have hlen := congrArg List.length hsep
      simp only [length_append, length_cons, length_nil] at hlen
      obtain rfl : U = [] := eq_nil_of_length_eq_zero (by omega)
      obtain rfl : V = [] := eq_nil_of_length_eq_zero (by omega)
      exact ⟨[], rfl, by simpa using hD.symm⟩
    · exact ⟨W, hsep, hs⟩
  obtain ⟨W, hVW, hs⟩ := hW
  exact ⟨V, W, hVW, hs, by simp⟩

theorem joined_eq_iff (sid n sid' n' : Bytes) (hp : Plain p) (hp' : Plain p') :
    sid ++ [58, 58] ++ p ++ [58, 58] ++ n = sid' ++ [58, 58] ++ p' ++ [58, 58] ++ n' ↔
      (sid = sid' ∧ p = p' ∧ n = n') ∨ Straddles sid p n sid' p' n' ∨
        Straddles sid' p' n' sid p n := by
  constructor
  · intro h
    -- where the node ids start at one place all three parts agree
    have hsame : sid ++ [58, 58] ++ p ++ [58, 58] = sid' ++ [58, 58] ++ p' ++ [58, 58] →
        sid = sid' ∧ p = p' := by
      intro heq
      have heq' : (sid ++ [58]) ++ 58 :: p = (sid' ++ [58]) ++ 58 :: p' := by
        simpa using append_cancel_right heq
      obtain ⟨hs, hpp⟩ := Keys.last_inj hp.noColon hp'.noColon heq'
      exact ⟨append_cancel_right hs, hpp⟩
    rcases append_eq_append_iff.mp h with ⟨Y, hA, hn⟩ | ⟨Y, hA, hn⟩
    · by_cases hY : Y = []
      · subst hY
        rw [append_nil] at hA
        obtain ⟨hs, hpp⟩ := hsame hA.symm
        exact .inl ⟨hs, hpp, by simpa using hn⟩
      · exact .inr (.inr (hn ▸ straddles_of_append hp' hY hA))
    · by_cases hY : Y = []
      · subst hY
        rw [append_nil] at hA
        obtain ⟨hs, hpp⟩ := hsame hA
        exact .inl ⟨hs, hpp, by simpa using hn.symm⟩
      · exact .inr (.inl (hn ▸ straddles_of_append hp hY hA))
  · rintro (⟨rfl, rfl, rfl⟩ | h | h)
    · rfl
    · exact joined_eq_of_straddles h
    · exact (joined_eq_of_straddles h).symm

end

/-! ## Validated names -/

theorem mem_intercalate {α : Type} {c x : α} (ls : List (List α))
    (h : c ∈ [x].intercalate ls) : c = x ∨ ∃ l ∈ ls, c ∈ l := by
  induction ls with
  | nil => simp [intercalate] at h
  | cons l ls ih =>
    cases ls with
    | nil => exact .inr ⟨l, by simp, by simpa [intercalate] using h⟩
    | cons l' ls =>
      have hsplit : c ∈ l ++ x :: [x].intercalate (l' :: ls) := by
        simpa [intercalate] using h
      rcases mem_append.mp hsplit with hl | hrest
      · exact .inr ⟨l, by simp, hl⟩
      · rcases mem_cons.mp hrest with hx | hrest
        · exact .inl hx
        · rcases ih hrest with hx | ⟨k, hk, hck⟩
          · exact .inl hx
          · exact .inr ⟨k, mem_cons_of_mem _ hk, hck⟩

theorem mem_metadataNameRe {name : String} (h : metadataNameRe name = true) {c : Char}
    (hc : c ∈ name.toList) : c.toNat < 128 ∧ c.toNat ≠ 58 := by
  have hjoin : ['-'].intercalate (name.toList.splitOn '-') = name.toList :=
    intercalate_splitOn '-'
  rw [← hjoin] at hc
  rcases mem_intercalate _ hc with rfl | ⟨part, hpart, hcp⟩
  · decide
  · rw [metadataNameRe, all_eq_true] at h
    have hall := h part hpart
    rw [Bool.and_eq_true, all_eq_true] at hall
    have hrange := hall.2 c hcp
    simp only [Bool.or_eq_true, Bool.and_eq_true, decide_eq_true_eq, Char.le_def,
      UInt32.le_iff_toNat_le] at hrange
    have hval : c.val.toNat = c.toNat := rfl
    rcases hrange with ⟨hlo, hhi⟩ | ⟨hlo, hhi⟩ <;>
      simp [hval] at hlo hhi <;> omega

theorem plain_bytes {name : String} (hne : name ≠ "") (h : metadataNameRe name = true) :
    Plain (bytes name) := by
  constructor
  · intro hnil
    refine hne (String.toList_inj.mp ?_)
    exact encode_injective (hnil.trans rfl)
  · intro hmem
    obtain ⟨c, hc, hcolon⟩ := mem_flatMap.mp hmem
    obtain ⟨hascii, hne⟩ := mem_metadataNameRe h hc
    rw [utf8EncodeChar_ascii hascii, mem_singleton] at hcolon
    have hnat := congrArg UInt8.toNat hcolon
    rw [UInt8.toNat_ofNat'] at hnat
    simp at hnat
    omega

def Accepted (printable : Char → Bool) (order : List String) (doc : PipelineDefinition) : Prop :=
  validatePipeline printable order [] doc = some []

instance (printable : Char → Bool) (order : List String) (doc : PipelineDefinition) :
    Decidable (Accepted printable order doc) :=
  inferInstanceAs (Decidable (_ = _))

theorem plain_of_accepted {printable : Char → Bool} {order : List String}
    {doc : PipelineDefinition} (h : Accepted printable order doc) : Plain (bytes doc.name) := by
  obtain ⟨graph, -, herrors⟩ := Option.map_eq_some_iff.mp h
  have hmeta : validatePipelineMetadata printable doc = [] := by
    simp only [append_eq_nil_iff] at herrors
    exact herrors.1.1.2
  rw [validatePipelineMetadata] at hmeta
  split at hmeta
  · cases hmeta
  next hne =>
    refine plain_bytes hne ?_
    by_contra hre
    simp [hre] at hmeta

/-! ## The keys -/

/-- For nodes of two validated pipelines, run under any session ids, and any tenants and
agent names without NUL: the engine session keys of distinct (session id, pipeline name,
node id) differ, unless tenant and agent are the same and one session id goes on into the
other's key. -/
theorem node_session_keys_differ (printable : Char → Bool) (order order' : List String)
    (doc doc' : PipelineDefinition) (hdoc : Accepted printable order doc)
    (hdoc' : Accepted printable order' doc') (sid sid' t t' a a' : Bytes) (id id' : String)
    (ht : 0 ∉ t) (ha : 0 ∉ a) (ht' : 0 ∉ t') (ha' : 0 ∉ a')
    (hne : (sid, doc.name, id) ≠ (sid', doc'.name, id')) :
    scopedSessionKey t a (scopedSession sid doc.name id) ≠
        scopedSessionKey t' a' (scopedSession sid' doc'.name id') ↔
      ¬ (t = t' ∧ a = a' ∧
        (Straddles sid (bytes doc.name) (bytes id) sid' (bytes doc'.name) (bytes id') ∨
          Straddles sid' (bytes doc'.name) (bytes id') sid (bytes doc.name) (bytes id))) := by
  rw [not_iff_not]
  have hjoined := joined_eq_iff sid (bytes id) sid' (bytes id') (plain_of_accepted hdoc)
    (plain_of_accepted hdoc')
  rw [← sessionSeparator_eq] at hjoined
  constructor
  · intro h
    obtain ⟨htt, hrest⟩ := Keys.first_inj ht ht' h
    obtain ⟨haa, hss⟩ := Keys.first_inj ha ha' hrest
    refine ⟨htt, haa, (hjoined.mp hss).resolve_left ?_⟩
    rintro ⟨rfl, hname, hid⟩
    refine hne ?_
    rw [String.toList_inj.mp (encode_injective hname), String.toList_inj.mp (encode_injective hid)]
  · rintro ⟨rfl, rfl, h⟩
    have hss : scopedSession sid doc.name id = scopedSession sid' doc'.name id' :=
      hjoined.mpr (.inr h)
    rw [hss]

def colonPipeline : PipelineDefinition :=
  { apiVersion := agentAPIVersion, kind := pipelineKind, name := "p"
    spec := { topology := .sequential, agents := [⟨"n", "a"⟩, ⟨"p::n", "a"⟩] } }

theorem node_session_keys_differ_plain :
    Accepted (fun _ => true) [] colonPipeline ∧
      scopedSessionKey (bytes "t") (bytes "a") (scopedSession (bytes "s") "p" "n") ≠
        scopedSessionKey (bytes "u") (bytes "a") (scopedSession (bytes "s::p") "p" "n") := by
  have haccepted : Accepted (fun _ => true) [] colonPipeline := by decide +kernel
  refine ⟨haccepted, (node_session_keys_differ (fun _ => true) [] [] colonPipeline colonPipeline
    haccepted haccepted (bytes "s") (bytes "s::p") (bytes "t") (bytes "u") (bytes "a") (bytes "a")
    "n" "n" (by decide +kernel) (by decide +kernel) (by decide +kernel) (by decide +kernel)
    (by decide +kernel)).mpr ?_⟩
  rintro ⟨ht, -⟩
  exact absurd ht (by decide +kernel)

/-- Two runs of one accepted pipeline, for one tenant, share an engine session: node `p::n`
under session `s`, and node `n` under session `s::p`. -/
theorem node_session_keys_collide :
    Accepted (fun _ => true) [] colonPipeline ∧
      ⟨"p::n", "a"⟩ ∈ colonPipeline.spec.agents ∧ ⟨"n", "a"⟩ ∈ colonPipeline.spec.agents ∧
      scopedSessionKey (bytes "t") (bytes "a") (scopedSession (bytes "s") colonPipeline.name "p::n") =
        scopedSessionKey (bytes "t") (bytes "a")
          (scopedSession (bytes "s::p") colonPipeline.name "n") := by
  decide +kernel

end MockAgents.Pipeline
