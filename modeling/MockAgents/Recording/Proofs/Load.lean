import MockAgents.Lib.JsonScan
import MockAgents.Recording.Load
import MockAgents.Recording.Proofs.Encode
import MockAgents.Recording.Proofs.Flush
/-!
# Recordings after a crash

A cassette file that was cut at any byte consists of complete lines and a tail that is empty, an
object without its newline, or a proper prefix of an object, which never parses.  So `Load` keeps
every interaction whose object is whole and leaves the next flush to rebuild the file where a tail
is left.

All of this needs that the lines themselves are read.  An embedded body may be nested as deep as
`json.Valid` allows, and is then one level deeper in its line.
-/

namespace MockAgents.Recording

open Lib Lib.Utf8 Lib.Json List Option Interaction Cassette

/-! ## Files of lines -/

def lineFile (objs : List Bytes) : Bytes := objs.flatMap (· ++ [10])

/-- The objects that lie entirely within so many bytes of the file. -/
def within : Nat → List Bytes → List Bytes
  | _, [] => []
  | k, obj :: objs => if obj.length ≤ k then obj :: within (k - (obj.length + 1)) objs else []

theorem encodeLines_eq_lineFile (tt : TimeText) (its : List Interaction) :
    encodeLines (·.encode tt) its = lineFile (its.filterMap (·.object tt)) := by
  rw [Proofs.encodeLines_eq, lineFile]
  induction its with
  | nil => rfl
  | cons it its ih =>
    cases hobj : it.object tt with
    | none => simp [Interaction.encode, hobj, ← ih]
    | some obj => simp [Interaction.encode, hobj, ← ih]

theorem lineFile_cons (obj : Bytes) (objs : List Bytes) : lineFile (obj :: objs) = obj ++ 10 :: lineFile objs := by
  simp [lineFile]

theorem within_sublist (k : Nat) (objs : List Bytes) : (within k objs).Sublist objs := by
  induction objs generalizing k with
  | nil => exact Sublist.refl _
  | cons obj objs ih =>
    rw [within]
    split
    · exact (ih _).cons_cons obj
    · exact nil_sublist _

theorem within_length (objs : List Bytes) : within (lineFile objs).length objs = objs := by
  induction objs with
  | nil => rfl
  | cons obj objs ih =>
    rw [lineFile_cons, length_append, length_cons, within, if_pos (by omega), ← Nat.add_assoc,
      Nat.add_right_comm, Nat.add_sub_cancel_left, ih]

/-- How a cut file ends: after a newline, after an object, or inside one. -/
inductive CutTail (objs done : List Bytes) (contents : Bytes) : Prop where
  | clean (h : contents = lineFile done)
  | unterminated (init : List Bytes) (last : Bytes) (hdone : done = init ++ [last])
      (h : contents = lineFile init ++ last)
  | torn (p q : Bytes) (hp : p ≠ []) (hq : q ≠ []) (hmem : p ++ q ∈ objs) (h : contents = lineFile done ++ p)

variable {objs : List Bytes} {contents : Bytes}

theorem CutTail.cons {obj : Bytes} {done : List Bytes} (h : CutTail objs done contents) :
    CutTail (obj :: objs) (obj :: done) (obj ++ 10 :: contents) := by
  cases h with
  | clean h => exact .clean (by rw [h, lineFile_cons])
  | unterminated init last hdone h =>
    exact .unterminated (obj :: init) last (by rw [hdone, cons_append])
      (by rw [h, lineFile_cons, append_assoc, cons_append])
  | torn p q hp hq hmem h =>
    exact .torn p q hp hq (mem_cons_of_mem obj hmem)
      (by rw [h, lineFile_cons, append_assoc, cons_append])

theorem cutTail_take (k : Nat) (objs : List Bytes) (hne : ∀ obj ∈ objs, obj ≠ []) :
    CutTail objs (within k objs) ((lineFile objs).take k) := by
  induction objs generalizing k with
  | nil =>
    refine .clean ?_
    rw [within, lineFile, flatMap_nil, take_nil]
  | cons obj objs ih =>
    have hrest := fun j => ih j fun x hx => hne x (mem_cons_of_mem obj hx)
    rw [lineFile_cons, within]
    by_cases hwhole : obj.length ≤ k
    · rw [if_pos hwhole, take_append, take_of_length_le hwhole]
      cases hmore : k - obj.length with
      | zero =>
        -- the cut is right after the object, and no other object is empty
        have hnone : within (k - (obj.length + 1)) objs = [] := by
          have hzero : k - (obj.length + 1) = 0 := by omega
          cases objs with
          | nil => rfl
          | cons next objs =>
            have hnext := length_pos_of_ne_nil (hne next (by simp))
            rw [within, if_neg (by omega)]
        rw [hnone, take_zero, append_nil]
        exact .unterminated [] obj rfl rfl
      | succ j =>
        have hj : k - (obj.length + 1) = j := by omega
        rw [hj]
        exact (hrest j).cons
    · rw [if_neg hwhole, take_append_of_le_length (by omega)]
      cases k with
      | zero =>
        refine .clean ?_
        rfl
      | succ k =>
        refine .torn (obj.take (k + 1)) (obj.drop (k + 1)) ?_ ?_ ?_ rfl
        · rw [ne_eq, take_eq_nil_iff]
          rintro (hzero | hnil)
          · cases hzero
          · exact hne obj mem_cons_self hnil
        · rw [ne_eq, drop_eq_nil_iff]
          exact hwhole
        · rw [take_append_drop]
          exact mem_cons_self

/-! ## Reading lines -/
variable {line : Bytes}

theorem splitLines_append (h : 10 ∉ line) (begun rest : Bytes) :
    splitLines begun (line ++ rest) = splitLines (begun ++ line) rest := by
  induction line generalizing begun with
  | nil => rw [nil_append, append_nil]
  | cons b line ih =>
    have hb : b ≠ 10 := fun heq => h (heq ▸ mem_cons_self)
    rw [cons_append, splitLines, if_neg hb, ih fun hmem => h (mem_cons_of_mem b hmem),
      append_assoc, singleton_append]

theorem splitLines_lineFile (h : ∀ obj ∈ objs, 10 ∉ obj) (rest : Bytes) :
    splitLines [] (lineFile objs ++ rest) = objs ++ splitLines [] rest := by
  induction objs with
  | nil => rfl
  | cons obj objs ih =>
    rw [lineFile_cons, append_assoc, splitLines_append (h obj mem_cons_self), nil_append,
      cons_append, splitLines, if_pos rfl, ih fun x hx => h x (mem_cons_of_mem obj hx), cons_append]

theorem splitLines_lines (h : ∀ obj ∈ objs, 10 ∉ obj) : splitLines [] (lineFile objs) = objs := by
  have hlines := splitLines_lineFile h []
  rw [append_nil] at hlines
  exact hlines.trans (append_nil objs)

theorem splitLines_last (h : 10 ∉ line) (hne : line ≠ []) : splitLines [] line = [line] := by
  have hlast := splitLines_append h [] []
  rw [append_nil, nil_append, splitLines] at hlast
  rw [hlast, if_neg (by simpa using hne)]

theorem scanLines_of_short {limit : Nat}
    (h : ∀ line ∈ splitLines [] contents, line.length < limit) :
    scanLines limit contents = (splitLines [] contents, false) := by
  have hall : (splitLines [] contents).takeWhile (fun line => decide (line.length < limit)) =
      splitLines [] contents := takeWhile_eq_self_iff.mpr fun line hline => decide_eq_true (h line hline)
  rw [scanLines, hall, decide_eq_false (Nat.lt_irrefl _)]

section Lines
variable {decode : Bytes → Option Interaction} {obj : Bytes}

theorem Framed.eq (h : Framed obj) : ∃ inner, obj = byte '{' :: inner ++ [byte '}'] := by
  obtain ⟨init, rfl⟩ := getLast?_eq_some_iff.mp h.closes
  cases init with
  | nil => exact absurd h.opens (by decide)
  | cons x inner =>
    obtain rfl : x = byte '{' := some.inj h.opens
    exact ⟨inner, rfl⟩

theorem Framed.ne_nil (h : Framed obj) : obj ≠ [] := by
  rintro rfl
  exact absurd h.opens (by decide)

theorem Framed.lineText (h : Framed obj) : lineText obj = obj := by
  obtain ⟨inner, rfl⟩ := h.eq
  have hcr : dropCR (byte '{' :: inner ++ [byte '}']) = byte '{' :: inner ++ [byte '}'] := by
    refine if_neg ?_
    rw [getLast?_append, getLast?_singleton, some_or]
    decide
  rw [Recording.lineText, hcr]
  exact Strings.trimSpace_eq_self (by decide) (by decide) inner (by decide) (by decide)

/-- What is left of a proper prefix of an object is again one, and not blank. -/
theorem lineText_prefix {p q : Bytes} (h : Framed (p ++ q)) (hp : p ≠ []) (hq : q ≠ []) :
    lineText p ≠ [] ∧ ∃ rest, rest ≠ [] ∧ lineText p ++ rest = p ++ q := by
  obtain ⟨x, p, rfl⟩ := exists_cons_of_ne_nil hp
  obtain rfl : x = byte '{' := some.inj h.opens
  have hcr : ∃ p', dropCR (byte '{' :: p) = byte '{' :: p' ∧ p' <+: p := by
    unfold dropCR
    split
    next hlast =>
      cases p with
      | nil => exact absurd hlast (by decide)
      | cons y p => exact ⟨(y :: p).dropLast, rfl, dropLast_prefix _⟩
    next => exact ⟨p, rfl, prefix_rfl⟩
  obtain ⟨p', hdrop, hprefix⟩ := hcr
  obtain ⟨htrim, hne⟩ := @Strings.trimSpace_prefix '{' (by decide) (by decide) p'
  rw [lineText, hdrop]
  obtain ⟨rest, hrest⟩ := htrim.trans (cons_prefix_cons.mpr ⟨rfl, hprefix⟩)
  refine ⟨hne, rest ++ q, by simp [hq], ?_⟩
  rw [← append_assoc]
  exact congrArg (· ++ q) hrest

theorem loadLines_read {its : List Interaction} (hframed : ∀ obj ∈ objs, Framed obj)
    (hread : objs.map decode = its.map some) (lineNo : Nat) (loaded : List Interaction) (rest : List Bytes) :
    loadLines decode lineNo ⟨loaded, none⟩ (objs ++ rest) =
      loadLines decode (lineNo + objs.length) ⟨loaded ++ its, none⟩ rest := by
  induction objs generalizing its lineNo loaded with
  | nil =>
    obtain rfl := map_eq_nil_iff.mp hread.symm
    rw [append_nil]
    rfl
  | cons obj objs ih =>
    cases its with
    | nil => cases hread
    | cons it its =>
      rw [map_cons, map_cons, cons.injEq] at hread
      have hobj := hframed obj mem_cons_self
      have hblank : ¬ (lineText obj).isEmpty = true := by
        rw [hobj.lineText]
        simpa using hobj.ne_nil
      rw [cons_append, loadLines, if_neg hblank, hobj.lineText, hread.1]
      dsimp only
      rw [ih (fun x hx => hframed x (mem_cons_of_mem obj hx)) hread.2, append_assoc,
        singleton_append, length_cons, Nat.add_assoc, Nat.add_comm 1]

end Lines

/-! ## Load of a cut file -/

section Load
variable {decode : Bytes → Option Interaction} {objs done : List Bytes} {its : List Interaction}
variable {contents : Bytes}

/-- A file of lines that are read. -/
structure ReadAs (decode : Bytes → Option Interaction) (objs : List Bytes) (its : List Interaction) : Prop where
  framed : ∀ obj ∈ objs, Framed obj
  short : ∀ obj ∈ objs, obj.length < maxCassetteLine
  read : objs.map decode = its.map some

theorem ReadAs.append (h : ReadAs decode objs its) {obj : Bytes} {it : Interaction} (hframed : Framed obj)
    (hshort : obj.length < maxCassetteLine) (hread : decode obj = some it) :
    ReadAs decode (objs ++ [obj]) (its ++ [it]) where
  framed := forall_mem_append.mpr ⟨h.framed, forall_mem_singleton.mpr hframed⟩
  short := forall_mem_append.mpr ⟨h.short, forall_mem_singleton.mpr hshort⟩
  read := by rw [map_append, map_append, h.read, map_singleton, map_singleton, hread]

theorem load_lines {path : String} {s : Loading}
    (hshort : ∀ line ∈ splitLines [] contents, line.length < maxCassetteLine)
    (hlines : loadLines decode 1 ⟨[], none⟩ (splitLines [] contents) = .ok s) :
    load decode path (.contents contents) =
      .ok ⟨path, s.interactions, s.interactions.length, s.torn.isSome || !endsWithNewline contents⟩ := by
  rw [load, scanLines_of_short hshort]
  dsimp only
  rw [hlines]
  rfl

theorem loadLines_all (h : ReadAs decode objs its) : loadLines decode 1 ⟨[], none⟩ objs = .ok ⟨its, none⟩ := by
  have hall := loadLines_read h.framed h.read 1 [] []
  rw [append_nil, loadLines, nil_append] at hall
  exact hall

theorem load_lineFile (h : ReadAs decode objs its) (path : String) :
    load decode path (.contents (lineFile objs)) = .ok ⟨path, its, its.length, false⟩ := by
  have hsplit := splitLines_lines fun obj hobj => (h.framed obj hobj).oneLine
  have hend : endsWithNewline (lineFile objs) = true := by
    rcases eq_nil_or_concat objs with rfl | ⟨init, last, rfl⟩
    · rfl
    · simp [endsWithNewline, lineFile]
  rw [load_lines (s := ⟨its, none⟩) (by rw [hsplit]; exact h.short) (by rw [hsplit]; exact loadLines_all h), hend]
  rfl

theorem load_unterminated {init : List Bytes} {last : Bytes} (h : ReadAs decode (init ++ [last]) its) (path : String) :
    load decode path (.contents (lineFile init ++ last)) = .ok ⟨path, its, its.length, true⟩ := by
  obtain ⟨hinit, hlast⟩ := forall_mem_append.mp h.framed
  have hframed := forall_mem_singleton.mp hlast
  have hsplit : splitLines [] (lineFile init ++ last) = init ++ [last] := by
    rw [splitLines_lineFile (fun obj hobj => (hinit obj hobj).oneLine), splitLines_last hframed.oneLine hframed.ne_nil]
  have hend : endsWithNewline (lineFile init ++ last) = false := by
    have hlastByte : (lineFile init ++ last).getLast? = some (byte '}') := by
      rw [getLast?_append, hframed.closes, some_or]
    have hne : (lineFile init ++ last).isEmpty = false := by simpa using fun _ => hframed.ne_nil
    rw [endsWithNewline, hlastByte, hne]
    decide
  rw [load_lines (s := ⟨its, none⟩) (by rw [hsplit]; exact h.short) (by rw [hsplit]; exact loadLines_all h), hend]
  rfl

theorem decode_eq_none (hsound : ∀ b it, decode b = some it → Json.valid b = true) {b : Bytes}
    (h : Json.valid b = false) : decode b = none :=
  eq_none_iff_forall_ne_some.mpr fun it hit => Bool.false_ne_true (h.symm.trans (hsound b it hit))

theorem load_torn (h : ReadAs decode done its) {p q : Bytes} (hp : p ≠ []) (hq : q ≠ []) (hframed : Framed (p ++ q))
    (hshort : (p ++ q).length < maxCassetteLine) (hvalid : Json.valid (p ++ q) = true)
    (hsound : ∀ b it, decode b = some it → Json.valid b = true) (path : String) :
    load decode path (.contents (lineFile done ++ p)) = .ok ⟨path, its, its.length, true⟩ := by
  have honeLine : 10 ∉ p := fun hmem => hframed.oneLine (mem_append_left q hmem)
  have hsplit : splitLines [] (lineFile done ++ p) = done ++ [p] := by
    rw [splitLines_lineFile (fun obj hobj => (h.framed obj hobj).oneLine), splitLines_last honeLine hp]
  obtain ⟨hblank, rest, hrest, htext⟩ := lineText_prefix hframed hp hq
  have hreject := decode_eq_none hsound
    ( not_valid_prefix hblank hrest (htext ▸ hframed.opens) (htext ▸ hframed.closes) (htext ▸ hvalid))
  have hlines : loadLines decode 1 ⟨[], none⟩ (done ++ [p]) = .ok ⟨its, some (1 + done.length)⟩ := by
    rw [loadLines_read h.framed h.read, nil_append, loadLines, if_neg (by simpa using hblank)]
    rw [hreject, loadLines]
  have hfits : ∀ line ∈ done ++ [p], line.length < maxCassetteLine := by
    refine forall_mem_append.mpr ⟨h.short, forall_mem_singleton.mpr ?_⟩
    rw [length_append] at hshort
    omega
  rw [load_lines (s := ⟨its, some (1 + done.length)⟩) (by rw [hsplit]; exact hfits) (by rw [hsplit]; exact hlines)]
  rfl

/-- A cut file is loaded up to the cut, and rebuilt by the next flush unless it ends with a line. -/
theorem load_cut (hcut : CutTail objs done contents) (h : ReadAs decode done its)
    (hobjs : ∀ obj ∈ objs, Framed obj ∧ obj.length < maxCassetteLine ∧ Json.valid obj = true)
    (hsound : ∀ b it, decode b = some it → Json.valid b = true) (path : String) :
    ∃ rewrite, load decode path (.contents contents) = .ok ⟨path, its, its.length, rewrite⟩ ∧
      (rewrite = false → contents = lineFile done) := by
  cases hcut with
  | clean hcontents => exact ⟨false, hcontents ▸ load_lineFile h path, fun _ => hcontents⟩
  | unterminated init last hdone hcontents =>
    subst hdone
    exact ⟨true, hcontents ▸ load_unterminated h path, fun hfalse => by cases hfalse⟩
  | torn p q hp hq hmem hcontents =>
    obtain ⟨hframed, hshort, hvalid⟩ := hobjs _ hmem
    exact ⟨true, hcontents ▸ load_torn h hp hq hframed hshort hvalid hsound path, fun hfalse => by cases hfalse⟩

end Load

/-! ## Corruption before the end -/

section Corrupt
variable {decode : Bytes → Option Interaction}
variable {bad line : Bytes} {rest before : List Bytes}

theorem loadLines_torn {lines : List Bytes} (hline : line ∈ lines) (hblank : lineText line ≠ [])
    (lineNo : Nat) (loaded : List Interaction) (torn : Nat) :
    ∃ err, loadLines decode lineNo ⟨loaded, some torn⟩ lines = .error err := by
  induction lines generalizing lineNo with
  | nil => exact absurd hline not_mem_nil
  | cons x lines ih =>
    rw [loadLines]
    split
    next hempty =>
      rcases mem_cons.mp hline with rfl | hline
      · exact absurd (by simpa using hempty) hblank
      · exact ih hline _
    next => exact ⟨_, rfl⟩

theorem loadLines_corrupt (hbad : lineText bad ≠ [])
    (hreject : decode (lineText bad) = none) (hline : line ∈ rest) (hblank : lineText line ≠ []) (lineNo : Nat)
    (s : Loading) : ∃ err, loadLines decode lineNo s (before ++ bad :: rest) = .error err := by
  induction before generalizing lineNo s with
  | nil =>
    rw [nil_append, loadLines, if_neg (by simpa using hbad)]
    split
    · exact ⟨_, rfl⟩
    · rw [hreject]
      exact loadLines_torn hline hblank _ _ _
  | cons x before ih =>
    rw [cons_append, loadLines]
    split
    · exact ih _ _
    · split
      · exact ⟨_, rfl⟩
      · split
        · exact ih _ _
        · exact ih _ _

theorem load_corrupt
    (hlines : splitLines [] contents = before ++ bad :: rest) (hbad : lineText bad ≠ [])
    (hreject : decode (lineText bad) = none) (hline : line ∈ rest) (hblank : lineText line ≠ []) (path : String) :
    ∃ err, load decode path (.contents contents) = .error err := by
  rw [load]
  by_cases hshort : ∀ x ∈ splitLines [] contents, x.length < maxCassetteLine
  · rw [scanLines_of_short hshort, hlines]
    obtain ⟨err, herr⟩ := loadLines_corrupt hbad hreject hline hblank 1 ⟨[], none⟩
    exact ⟨err, by rw [herr]⟩
  · -- the scanner stops before the end
    have hstopped : (scanLines maxCassetteLine contents).2 = true := by
      refine decide_eq_true (Nat.lt_of_le_of_ne ( takeWhile_prefix _).length_le fun hlength => hshort fun x hx => ?_)
      have hall := ( takeWhile_prefix fun line : Bytes => decide (line.length < maxCassetteLine)).eq_of_length hlength
      exact of_decide_eq_true (takeWhile_eq_self_iff.mp hall x hx)
    split
    · exact ⟨_, rfl⟩
    · exact ⟨_, if_pos hstopped⟩

end Corrupt

/-! ## One more interaction -/

/-- What `encoding/json` makes of the line of an interaction: a valid line is read, and what was
read is written as a line that is no longer and read as the same. -/
def Reread (tt : TimeText) (decode : Bytes → Option Interaction) (it : Interaction) : Prop :=
  ∀ obj, it.object tt = some obj → Json.valid obj = true →
    ∃ it' obj', decode obj = some it' ∧ it'.object tt = some obj' ∧ obj'.length ≤ obj.length ∧
      decode obj' = some it'

def appended (tt : TimeText) (hashRequest : Bytes → Bytes → Bytes → Bytes) (now : Int) (c : Cassette)
    (contents : Bytes) (it : Interaction) : CassetteFile :=
  let c := c.append hashRequest now it
  .ofOption (c.flush (·.encode tt) (some contents) c.interactions ⟨.succeeds, .succeeds⟩).2.1

section Append
variable {tt : TimeText} {decode : Bytes → Option Interaction} {objs : List Bytes} {its : List Interaction}

theorem ReadAs.rewritten (h : ReadAs decode objs its)
    (hagain : ∀ obj ∈ objs, ∀ it, decode obj = some it →
      ∃ obj', it.object tt = some obj' ∧ obj'.length ≤ obj.length ∧ decode obj' = some it) :
    ReadAs decode (its.filterMap (·.object tt)) its := by
  obtain ⟨hframed, hshort, hread⟩ := h
  induction objs generalizing its with
  | nil =>
    obtain rfl := map_eq_nil_iff.mp hread.symm
    exact ⟨fun x hx => absurd hx not_mem_nil, fun x hx => absurd hx not_mem_nil, rfl⟩
  | cons obj objs ih =>
    cases its with
    | nil => cases hread
    | cons it its =>
      rw [map_cons, map_cons, cons.injEq] at hread
      rw [forall_mem_cons] at hframed hshort hagain
      obtain ⟨obj', hobj, hle, hdecode⟩ := hagain.1 it hread.1
      obtain ⟨hframed', hshort', hread'⟩ := ih hagain.2 hframed.2 hshort.2 hread.2
      rw [filterMap_cons_some hobj]
      exact ⟨forall_mem_cons.mpr ⟨object_framed hobj, hframed'⟩,
        forall_mem_cons.mpr ⟨Nat.lt_of_le_of_lt hle hshort.1, hshort'⟩,
        by rw [map_cons, map_cons, hdecode, hread']⟩

theorem load_appended (h : ReadAs decode objs its) (hrewritten : ReadAs decode (its.filterMap (·.object tt)) its)
    {rewrite : Bool} (hclean : rewrite = false → contents = lineFile objs) (path : String)
    (hashRequest : Bytes → Bytes → Bytes → Bytes) (now : Int) {new read : Interaction} {obj : Bytes}
    (hobj : (stamp hashRequest now new).object tt = some obj) (hshort : obj.length < maxCassetteLine)
    (hread : decode obj = some read) :
    ∃ c, load decode path (appended tt hashRequest now ⟨path, its, its.length, rewrite⟩ contents new) = .ok c ∧
      c.interactions = its ++ [read] := by
  have hframed := object_framed hobj
  have hlonger : ¬ its.length ≥ (its ++ [stamp hashRequest now new]).length := by simp
  cases rewrite with
  | true =>
    have hfile : appended tt hashRequest now ⟨path, its, its.length, true⟩ contents new =
        .contents (lineFile (its.filterMap (·.object tt) ++ [obj])) := by
      simp only [appended, append, flush, if_neg hlonger, if_true, writeCassette, CassetteFile.ofOption]
      rw [encodeLines_eq_lineFile, filterMap_append, filterMap_cons_some hobj, filterMap_nil]
    rw [hfile]
    exact ⟨_, load_lineFile (hrewritten.append hframed hshort hread) path, rfl⟩
  | false =>
    have hbuf : encodeLines (·.encode tt) ((its ++ [stamp hashRequest now new]).drop its.length) = obj ++ [10] := by
      rw [drop_left, encodeLines_eq_lineFile, filterMap_cons_some hobj, filterMap_nil]
      simp [lineFile]
    have hfile : appended tt hashRequest now ⟨path, its, its.length, false⟩ contents new =
        .contents (lineFile (objs ++ [obj])) := by
      simp only [appended, append, flush, if_neg hlonger, Bool.false_eq_true, if_false, hbuf]
      rw [if_neg (by simp), hclean rfl]
      simp [appendCassette, lineFile, CassetteFile.ofOption]
    rw [hfile]
    exact ⟨_, load_lineFile (h.append hframed hshort hread) path, rfl⟩

end Append

/-! ## Any cut -/

/-- The file of some interactions, cut after any number of bytes, is loaded as the interactions
whose object lies within the cut, and one more interaction can be appended to what was loaded. -/
def Survives (tt : TimeText) (decode : Bytes → Option Interaction) (path : String)
    (hashRequest : Bytes → Bytes → Bytes → Bytes) (now : Int) (its : List Interaction) (new : Interaction) : Prop :=
  ∀ k, ∃ c, load decode path (.contents ((encodeLines (·.encode tt) its).take k)) = .ok c ∧
    c.interactions.map some = (within k (its.filterMap (·.object tt))).map decode ∧
    ∃ c', load decode path
        (appended tt hashRequest now c ((encodeLines (·.encode tt) its).take k) new) = .ok c' ∧
      c'.interactions.map some = c.interactions.map some ++ [((stamp hashRequest now new).object tt).bind decode]

section Survival
variable {tt : TimeText} {decode : Bytes → Option Interaction} {hashRequest : Bytes → Bytes → Bytes → Bytes}
  {now : Int} {its : List Interaction} {new : Interaction}

theorem survives_of_valid (hsound : ∀ b it, decode b = some it → Json.valid b = true)
    (hencodes : ∀ it ∈ its ++ [stamp hashRequest now new], ∃ obj, it.object tt = some obj ∧ obj.length < maxCassetteLine)
    (hreread : ∀ it ∈ its ++ [stamp hashRequest now new], Reread tt decode it)
    (hvalid : ∀ it ∈ its ++ [stamp hashRequest now new], ∀ obj, it.object tt = some obj → Json.valid obj = true)
    (path : String) : Survives tt decode path hashRequest now its new := by
  intro k
  rw [forall_mem_append, forall_mem_singleton] at hencodes hreread hvalid
  have hobjs : ∀ obj ∈ its.filterMap (·.object tt),
      (Framed obj ∧ obj.length < maxCassetteLine ∧ Json.valid obj = true) ∧ ∃ it' obj', decode obj = some it' ∧
        it'.object tt = some obj' ∧ obj'.length ≤ obj.length ∧ decode obj' = some it' := by
    intro obj hobj
    obtain ⟨it, hmem, hit⟩ := mem_filterMap.mp hobj
    obtain ⟨obj', hobj', hlt⟩ := hencodes.1 it hmem
    obtain rfl : obj' = obj := some.inj (hobj'.symm.trans hit)
    have hok := hvalid.1 it hmem obj' hit
    exact ⟨⟨object_framed hit, hlt, hok⟩, hreread.1 it hmem obj' hit hok⟩
  have hsub := (within_sublist k (its.filterMap (·.object tt))).subset
  have hdone : ReadAs decode (within k (its.filterMap (·.object tt)))
      ((within k (its.filterMap (·.object tt))).filterMap decode) := by
    refine ⟨fun obj hobj => (hobjs obj (hsub hobj)).1.1, fun obj hobj => (hobjs obj (hsub hobj)).1.2.1, ?_⟩
    rw [map_filterMap_some_eq_filter_map_isSome, filter_eq_self.mpr]
    intro x hx
    obtain ⟨obj, hobj, rfl⟩ := mem_map.mp hx
    obtain ⟨-, it', -, hdecode, -⟩ := hobjs obj (hsub hobj)
    rw [hdecode]
    rfl
  have hrewritten := hdone.rewritten fun obj hobj it hit => by
    obtain ⟨-, it', obj', hdecode, hobj', hle, hdecode'⟩ := hobjs obj (hsub hobj)
    obtain rfl : it' = it := some.inj (hdecode.symm.trans hit)
    exact ⟨obj', hobj', hle, hdecode'⟩
  have hcut := cutTail_take k _ fun obj hobj => (hobjs obj hobj).1.1.ne_nil
  rw [encodeLines_eq_lineFile]
  obtain ⟨rewrite, hload, hclean⟩ := load_cut hcut hdone (fun obj hobj => (hobjs obj hobj).1) hsound path
  obtain ⟨obj, hobj, hlt⟩ := hencodes.2
  obtain ⟨read, -, hread, -⟩ := hreread.2 obj hobj (hvalid.2 obj hobj)
  obtain ⟨c', hload', hits'⟩ := load_appended hdone hrewritten hclean path hashRequest now hobj hlt hread
  refine ⟨_, hload, hdone.read.symm, c', hload', ?_⟩
  rw [hits', hobj, bind_some, hread, map_append, map_singleton]

theorem valid_of_survives (hsound : ∀ b it, decode b = some it → Json.valid b = true) {path : String}
    (h : Survives tt decode path hashRequest now its new) :
    ∀ it ∈ its ++ [stamp hashRequest now new], ∀ obj, it.object tt = some obj → Json.valid obj = true := by
  obtain ⟨c, -, hread, c', -, hread'⟩ := h (lineFile (its.filterMap (·.object tt))).length
  rw [within_length] at hread
  rw [forall_mem_append, forall_mem_singleton]
  constructor
  · intro it hit obj hobj
    have hmem : decode obj ∈ c.interactions.map some := by
      rw [hread]
      exact mem_map_of_mem (mem_filterMap.mpr ⟨it, hit, hobj⟩)
    obtain ⟨it', -, hdecode⟩ := mem_map.mp hmem
    exact hsound obj it' hdecode.symm
  · intro obj hobj
    have hmem : decode obj ∈ c'.interactions.map some := by
      rw [hread', hobj]
      exact mem_append_right _ (mem_singleton_self _)
    obtain ⟨it', -, hdecode⟩ := mem_map.mp hmem
    exact hsound obj it' hdecode.symm

end Survival

section Example

def sampleTime : TimeText where
  marshal _ := some (bytes "\"1970-01-01T00:00:00Z\"")
  oneLine := by
    rintro - text h
    cases h
    decide +kernel

def plainRecording : Interaction where
  recordedAt := some 0
  hash := bytes "h"
  method := bytes "POST"
  path := bytes "/v1/messages"
  responseStatus := 200

def plainObject : Bytes := (plainRecording.object sampleTime).getD []

/-- A recording of a request whose body is an array nested as deep as `json.Valid` allows. -/
def deepRecording : Interaction := { plainRecording with requestBody := nested 10000 }

def beforeBody : Bytes :=
  byte '{' :: Strings.join [member "recorded_at" (bytes "\"1970-01-01T00:00:00Z\""), member "hash" (jsonString (bytes "h")),
    member "method" (jsonString (bytes "POST")), member "path" (jsonString (bytes "/v1/messages"))] [byte ','] ++
    byte ',' :: jsonString (bytes "request_body") ++ [byte ':']

def afterBody : Bytes := byte ',' :: member "response_status" (bytes "200") ++ [byte '}']

theorem compact_nested : compact (nested 10000) = some (nested 10000) := by
  rw [compact, if_pos (valid_nested (n := 9999) (by decide)), compactFrom_kept]
  intro c hc
  rcases mem_append.mp hc with hc | hc
  · obtain rfl := eq_of_mem_replicate hc
    decide
  · obtain rfl := eq_of_mem_replicate hc
    decide

theorem deepRecording_object :
    deepRecording.object sampleTime = some (beforeBody ++ nested 10000 ++ afterBody) := by
  have hbody : rawMember "request_body" deepRecording.requestBody = some [member "request_body" (nested 10000)] := by
    have hne : nested 10000 ≠ [] := by
      intro hnil
      have hlength := congrArg List.length hnil
      rw [nested, length_append, length_replicate, length_nil] at hlength
      omega
    change rawMember "request_body" (nested 10000) = _
    rw [rawMember, compact_nested]
    rfl
  have hrest : rawMember "response_body" deepRecording.responseBody = some [] := rfl
  rw [object, hbody]
  simp [deepRecording, plainRecording, sampleTime, members, unlessEmpty, BodyEncoding.name, braced,
    beforeBody, afterBody, member, Strings.join, intercalate, decimal]
  rfl

end Example

end MockAgents.Recording
