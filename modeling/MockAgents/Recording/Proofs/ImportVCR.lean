import MockAgents.Recording.ImportVCR
import MockAgents.Recording.Proofs.Load
/-!
# The size of imported lines

The importer limits one decompressed body.  A plain body is not limited, and the line of an
interaction holds both stored bodies, its headers and the names of its members.  A cassette that
was appended to by an import can be loaded exactly when every line fits the scanner and every line
but the last is valid.
-/

namespace MockAgents.Recording

open Lib Lib.Utf8 Lib.Json List Option Cassette

/-! ## The length of a line -/

theorem length_join {parts : List Bytes} (h : parts ≠ []) :
    (Strings.join parts [byte ',']).length + 1 = (parts.map (·.length + 1)).sum := by
  induction parts with
  | nil => exact absurd rfl h
  | cons p parts ih =>
    cases parts with
    | nil => simp [Strings.join, intercalate]
    | cons q parts =>
      have hrest := ih (cons_ne_nil q parts)
      rw [join_cons_cons, map_cons, sum_cons, length_append, length_cons]
      omega
variable {members : List Bytes}

theorem length_braced (h : members ≠ []) :
    (braced members).length = (members.map (·.length + 1)).sum + 1 := by
  rw [braced, length_append, length_cons, length_singleton, ← length_join h]

/-- What a stored body adds to a line: the name of its member, its compact text and a comma. -/
def storedLength (key : String) (raw : Bytes) : Nat :=
  if raw.isEmpty then 0 else (member key (compactFrom Scanner.reset 0 raw)).length + 1

theorem length_rawMember {key : String} {raw : Bytes} (h : rawMember key raw = some members) :
    (members.map (·.length + 1)).sum = storedLength key raw := by
  unfold rawMember at h
  unfold storedLength
  split at h
  next hempty =>
    cases h
    rw [if_pos hempty]
    rfl
  next hraw =>
    obtain ⟨text, htext, rfl⟩ := map_eq_some_iff.mp h
    unfold compact at htext
    split at htext
    next =>
      cases htext
      rw [if_neg hraw, map_singleton, sum_singleton]
    next => cases htext

def Interaction.envelope (it : Interaction) : Interaction := { it with requestBody := [], responseBody := [] }

theorem Interaction.length_object {tt : TimeText} {it : Interaction} {obj : Bytes} (h : it.object tt = some obj) :
    ∃ envelope, it.envelope.object tt = some envelope ∧
      obj.length = envelope.length + storedLength "request_body" it.requestBody +
        storedLength "response_body" it.responseBody := by
  simp only [Interaction.object, bind_eq_bind, bind_eq_some_iff, some.injEq] at h
  obtain ⟨time, htime, request, hrequest, response, hresponse, rfl⟩ := h
  refine ⟨braced (it.members time [] []), ?_, ?_⟩
  · simp only [Interaction.object, bind_eq_bind, bind_eq_some_iff, some.injEq]
    exact ⟨time, htime, [], rfl, [], rfl, rfl⟩
  · have hne : ∀ request response, it.members time request response ≠ [] := by simp [Interaction.members]
    rw [length_braced (hne _ _), length_braced (hne _ _), ← length_rawMember hrequest, ← length_rawMember hresponse]
    simp only [Interaction.members, map_append, sum_append, map_nil, sum_nil]
    omega

/-! ## Loading what was written -/

def appendedAll (tt : TimeText) (hashRequest : Bytes → Bytes → Bytes → Bytes) (now : Int) (c : Cassette)
    (file : Option Bytes) (its : List Interaction) : CassetteFile :=
  let c := c.appendAll hashRequest now its
  .ofOption (c.flush (·.encode tt) file c.interactions ⟨.succeeds, .succeeds⟩).2.1

section Written
variable {tt : TimeText} {decode : Bytes → Option Interaction} {objs lines : List Bytes} {old : List Interaction}
variable {file : Option Bytes}

/-- Unless nothing can be encoded, the new lines are appended to those of the file. -/
theorem appendedAll_eq (hfile : file.getD [] = lineFile objs) (path : String)
    (hashRequest : Bytes → Bytes → Bytes → Bytes) (now : Int) (its : List Interaction)
    (hlines : lines = (its.map (stamp hashRequest now)).filterMap (·.object tt)) :
    appendedAll tt hashRequest now ⟨path, old, old.length, false⟩ file its =
      if lines = [] then .ofOption file else .contents (lineFile (objs ++ lines)) := by
  have hbuf : encodeLines (·.encode tt) ((old ++ its.map (stamp hashRequest now)).drop old.length) = lineFile lines := by
    rw [drop_left, encodeLines_eq_lineFile, hlines]
  by_cases hnil : lines = []
  · simp only [appendedAll, appendAll, flush, Bool.false_eq_true, if_false, hbuf, hnil, lineFile,
      flatMap_nil, length_nil, if_true]
    split <;> rfl
  · have hits : its ≠ [] := by
      rintro rfl
      exact hnil hlines
    have hlonger : ¬ old.length ≥ (old ++ its.map (stamp hashRequest now)).length := by
      have hpos := length_pos_of_ne_nil hits
      rw [length_append, length_map]
      omega
    have hbytes : ¬ (lineFile lines).length = 0 := by
      obtain ⟨x, rest, rfl⟩ := exists_cons_of_ne_nil hnil
      rw [lineFile_cons, length_append, length_cons]
      omega
    rw [if_neg hnil]
    simp only [appendedAll, appendAll, flush, if_neg hlonger, Bool.false_eq_true, if_false, hbuf,
      if_neg hbytes, appendCassette, hfile, CassetteFile.ofOption]
    rw [lineFile, lineFile, lineFile, flatMap_append]

theorem load_too_long {contents : Bytes} {line : Bytes} (hline : line ∈ splitLines [] contents)
    (hlong : maxCassetteLine ≤ line.length) (path : String) :
    ∃ err, load decode path (.contents contents) = .error err := by
  have hstopped : (scanLines maxCassetteLine contents).2 = true := by
    refine decide_eq_true (Nat.lt_of_le_of_ne ( takeWhile_prefix _).length_le fun hlength => ?_)
    have hall := ( takeWhile_prefix fun line : Bytes => decide (line.length < maxCassetteLine)).eq_of_length hlength
    have hlt := of_decide_eq_true (takeWhile_eq_self_iff.mp hall line hline)
    omega
  rw [load]
  split
  · exact ⟨_, rfl⟩
  · exact ⟨_, if_pos hstopped⟩

/-- A file of lines is loaded exactly when its lines fit and all but the last are read. -/
theorem load_lines_iff (h : ReadAs decode objs old) (hne : lines ≠ []) (hframed : ∀ obj ∈ lines, Framed obj)
    (hread : ∀ obj ∈ lines, (decode obj).isSome = true ↔ Json.valid obj = true) (path : String) :
    (∃ c, load decode path (.contents (lineFile (objs ++ lines))) = .ok c) ↔
      (∀ obj ∈ lines, obj.length < maxCassetteLine) ∧ ∀ obj ∈ lines.dropLast, Json.valid obj = true := by
  have hframedAll : ∀ obj ∈ objs ++ lines, Framed obj := forall_mem_append.mpr ⟨h.framed, hframed⟩
  have hsplit : splitLines [] (lineFile (objs ++ lines)) = objs ++ lines := by
    have hlines := splitLines_lineFile (fun obj hobj => (hframedAll obj hobj).oneLine) []
    rw [append_nil] at hlines
    exact hlines.trans (append_nil _)
  obtain ⟨init, last, rfl⟩ : ∃ init last, lines = init ++ [last] :=
    ⟨lines.dropLast, lines.getLast hne, (dropLast_append_getLast hne).symm⟩
  rw [dropLast_concat]
  constructor
  · rintro ⟨c, hload⟩
    constructor
    · intro obj hobj
      by_contra hlong
      obtain ⟨err, herr⟩ := load_too_long (hsplit ▸ mem_append_right objs hobj) (Nat.le_of_not_lt hlong) path
      rw [herr] at hload
      cases hload
    · intro obj hobj
      by_contra hinvalid
      obtain ⟨before, after, rfl⟩ := append_of_mem hobj
      have hobjFramed := hframed obj (mem_append_left _ hobj)
      have hlastFramed := hframed last (mem_append_right _ (mem_singleton_self last))
      have hreject : decode (lineText obj) = none := by
        rw [hobjFramed.lineText]
        have hnot := mt (hread obj (mem_append_left _ hobj)).mp hinvalid
        simpa using hnot
      have hparts : splitLines [] (lineFile (objs ++ (before ++ obj :: after ++ [last]))) =
          (objs ++ before) ++ obj :: (after ++ [last]) := by
        rw [hsplit]
        simp
      obtain ⟨err, herr⟩ := load_corrupt hparts (by rw [hobjFramed.lineText]; exact hobjFramed.ne_nil) hreject
        (mem_append_right after (mem_singleton_self last))
        (by rw [hlastFramed.lineText]; exact hlastFramed.ne_nil) path
      rw [herr] at hload
      cases hload
  · rintro ⟨hshort, hvalid⟩
    obtain ⟨hframedInit, hframedLast⟩ := forall_mem_append.mp hframed
    obtain ⟨hshortInit, hshortLast⟩ := forall_mem_append.mp hshort
    obtain ⟨hreadInit, hreadLast⟩ := forall_mem_append.mp hread
    have hinit : ReadAs decode (objs ++ init) (old ++ init.filterMap decode) := by
      refine ⟨forall_mem_append.mpr ⟨h.framed, hframedInit⟩, forall_mem_append.mpr ⟨h.short, hshortInit⟩, ?_⟩
      rw [map_append, map_append, h.read, map_filterMap_some_eq_filter_map_isSome,
        filter_eq_self.mpr]
      intro x hx
      obtain ⟨obj, hobj, rfl⟩ := mem_map.mp hx
      exact (hreadInit obj hobj).mpr (hvalid obj hobj)
    have hlastFramed := forall_mem_singleton.mp hframedLast
    have hfits : ∀ line ∈ splitLines [] (lineFile (objs ++ (init ++ [last]))), line.length < maxCassetteLine := by
      rw [hsplit]
      exact forall_mem_append.mpr ⟨h.short, hshort⟩
    have hblank : ¬ (lineText last).isEmpty = true := by
      rw [hlastFramed.lineText]
      simpa using hlastFramed.ne_nil
    have hlines : ∃ s, loadLines decode 1 ⟨[], none⟩ (splitLines [] (lineFile (objs ++ (init ++ [last])))) = .ok s := by
      rw [hsplit, ← append_assoc, loadLines_read hinit.framed hinit.read, loadLines, if_neg hblank]
      dsimp only
      split
      · exact ⟨_, rfl⟩
      · exact ⟨_, rfl⟩
    obtain ⟨s, hs⟩ := hlines
    exact ⟨_, load_lines hfits hs⟩

end Written

/-! ## Imports -/

section Import
variable {V : Type} {env : ImportEnv V} {all : Bool}
variable {it : Interaction}

def VcrDocument.interactions : VcrDocument V → List (VcrInteraction V)
  | .empty | .malformed => []
  | .cassette interactions => interactions

theorem mem_importFrom {first : Nat} {vis : List (VcrInteraction V)} :
    it ∈ (importFrom env all first vis).1 ↔
      ∃ i vi, vis[i]? = some vi ∧ importOne env all (first + i) vi = .ok it := by
  induction vis generalizing first with
  | nil => simp [importFrom]
  | cons vi vis ih =>
    have hlater : (∃ i x, vis[i]? = some x ∧ importOne env all (first + 1 + i) x = .ok it) ↔
        ∃ i x, (vi :: vis)[i + 1]? = some x ∧ importOne env all (first + (i + 1)) x = .ok it := by
      simp only [getElem?_cons_succ, Nat.add_assoc, Nat.add_comm 1]
    have hcases : (∃ i x, (vi :: vis)[i]? = some x ∧ importOne env all (first + i) x = .ok it) ↔
        importOne env all first vi = .ok it ∨ it ∈ (importFrom env all (first + 1) vis).1 := by
      rw [ih, hlater]
      constructor
      · rintro ⟨i, x, hx, hone⟩
        cases i with
        | zero =>
          cases hx
          exact .inl hone
        | succ i => exact .inr ⟨i, x, hx, hone⟩
      · rintro (hone | ⟨i, x, hx, hone⟩)
        · exact ⟨0, vi, rfl, hone⟩
        · exact ⟨i + 1, x, hx, hone⟩
    rw [hcases, importFrom]
    split
    next reason herror => simp [herror]
    next it' hok => simp [hok, eq_comm]

theorem mem_importVCR {doc : VcrDocument V} {its : List Interaction} {skipped : List SkipReason}
    (h : importVCR env all doc = some (its, skipped)) :
    it ∈ its ↔ ∃ (i : Nat) (vi : VcrInteraction V), doc.interactions[i]? = some vi ∧
      importOne env all i vi = .ok it := by
  cases doc with
  | empty =>
    cases h
    simp [VcrDocument.interactions]
  | malformed => cases h
  | cassette vis =>
    have hits : its = (importFrom env all 0 vis).1 := (congrArg Prod.fst (some.inj h)).symm
    rw [hits, mem_importFrom]
    simp only [Nat.zero_add, VcrDocument.interactions]

theorem importOne_bodies {i : Nat} {vi : VcrInteraction V} (h : importOne env all i vi = .ok it) :
    it.requestBody = (bodyToRawMessage env (unmarshalBody env vi.requestBody)).1 ∧
      it.responseBody = (bodyToRawMessage env (unmarshalBody env vi.responseBody)).1 := by
  unfold importOne at h
  dsimp only at h
  split at h
  · cases h
  · split at h
    · cases h
    · cases h
    · split at h
      · cases h
      · split at h
        · cases h
        · cases h
          exact ⟨rfl, rfl⟩

end Import

section Example

def sampleImport : ImportEnv Unit where
  toUpper := id
  toLower := id
  urlPath := some
  gunzip _ := none
  marshalMap _ := none
  printable _ := false

/-- A recorded answer that is a number of so many digits, as a plain scalar. -/
def digitsAnswer (n : Nat) : VcrInteraction Unit where
  method := bytes "POST"
  uri := bytes "/v1/messages"
  requestBody := .absent
  requestHeaders := []
  statusCode := 200
  responseHeaders := []
  responseBody := .scalar (List.replicate n (byte '1'))

def digitsRecording (n : Nat) : Interaction where
  method := bytes "POST"
  path := bytes "/v1/messages"
  responseStatus := 200
  responseBody := List.replicate n (byte '1')

theorem valid_digits (n : Nat) : Json.valid (List.replicate (n + 1) (byte '1')) = true := by
  have hmore : ∀ m, (List.replicate m (byte '1')).foldl Scanner.next ⟨.one, false, []⟩ = ⟨.one, false, []⟩ := by
    intro m
    induction m with
    | zero => rfl
    | succ m ih =>
      exact ih
  have hfirst : Scanner.reset.next (byte '1') = ⟨.one, false, []⟩ := by decide
  rw [Json.valid, replicate_succ, foldl_cons, hfirst, hmore]
  decide

theorem importOne_digits (n : Nat) :
    importOne sampleImport false 0 (digitsAnswer (n + 1)) = .ok (digitsRecording (n + 1)) := by
  have hpath : uriToPath sampleImport (bytes "/v1/messages") = some (bytes "/v1/messages") := by decide +kernel
  have hmethod : sampleImport.toUpper (Strings.trimSpace (bytes "POST")) = bytes "POST" := by decide +kernel
  have hknown : (!false && (bytes "POST" != bytes "POST" || !(llmPaths.contains (bytes "/v1/messages")))) = false := by
    decide +kernel
  have hbody : bodyToRawMessage sampleImport (unmarshalBody sampleImport (digitsAnswer (n + 1)).responseBody) =
      (List.replicate (n + 1) (byte '1'), .json) := by
    change bodyToRawMessage sampleImport { raw := List.replicate (n + 1) (byte '1'), present := true } = _
    rw [bodyToRawMessage, if_neg (by simp), encodeBody, if_neg (by simp), if_pos (valid_digits n)]
  unfold importOne
  dsimp only
  rw [hbody]
  dsimp only [digitsAnswer, unmarshalBody]
  rfl

theorem importVCR_digits (n : Nat) :
    importVCR sampleImport false (.cassette [digitsAnswer (n + 1)]) = some ([digitsRecording (n + 1)], []) := by
  rw [importVCR, importFrom, importOne_digits]
  rfl

end Example

end MockAgents.Recording
