import Mathlib.Data.List.Basic
/-!
# Bracketed lifecycles in an event sequence

Events open, mention and close identifiers.  A ledger reads such a sequence and
refuses it at the first event out of place; what it accepts is well bracketed.
Some identifiers are main ones, of which only one may be open at a time.
-/

namespace MockAgents.Lib.Lifecycle

open List Option Prod

/-- What one event says about identifiers. -/
inductive Mark (ι : Type) where
  | silent
  | opened (id : ι) (main : Bool)
  | carried (id : ι)
  | closed (id : ι)
deriving DecidableEq

variable {ι : Type}

def Mark.id? : Mark ι → Option ι
  | .silent => none
  | .opened id _ | .carried id | .closed id => some id

/-- The identifiers open now, and those closed before. -/
structure Ledger (ι : Type) where
  opened : List (ι × Bool)
  finished : List ι

def OpenIn (marks : List (Mark ι)) (id : ι) (main : Bool) : Prop :=
  .opened id main ∈ marks ∧ .closed id ∉ marks

/-- Every identifier is opened before it is mentioned, opened once, closed at most
once and not mentioned afterwards; at most one main identifier is open at a time. -/
structure WellBracketed (marks : List (Mark ι)) : Prop where
  opened_first : ∀ pre post id main, marks = pre ++ .opened id main :: post →
    ∀ m ∈ pre, m.id? ≠ some id
  closed_last : ∀ pre post id, marks = pre ++ .closed id :: post → ∀ m ∈ post, m.id? ≠ some id
  opened_before : ∀ pre post m id, marks = pre ++ m :: post → m = .carried id ∨ m = .closed id →
    ∃ main, .opened id main ∈ pre
  one_main : ∀ pre post, marks = pre ++ post → ∀ id id',
    OpenIn pre id true → OpenIn pre id' true → id = id'

namespace Ledger

def empty : Ledger ι := ⟨[], []⟩

def ids (L : Ledger ι) : List ι := L.opened.map Prod.fst ++ L.finished

/-! ## What a ledger knows after a sequence -/

/-- The ledger describes the sequence it has read. -/
structure Describes (L : Ledger ι) (marks : List (Mark ι)) : Prop where
  opened : ∀ id main, (id, main) ∈ L.opened ↔ OpenIn marks id main
  finished : ∀ id, id ∈ L.finished ↔ .closed id ∈ marks
  seen : ∀ m ∈ marks, ∀ id, m.id? = some id → id ∈ L.ids
  main : ∀ o ∈ L.opened, ∀ o' ∈ L.opened, o.2 = true → o'.2 = true → o = o'

variable {id : ι} {marks : List (Mark ι)} {L L' : Ledger ι} {m : Mark ι} {main : Bool}

theorem Describes.mem_opened (h : L.Describes marks) (hid : id ∈ L.opened.map fst) :
    ∃ main, OpenIn marks id main := by
  simp only [List.mem_map, Prod.exists, exists_and_right, exists_eq_right] at hid
  obtain ⟨main, hm⟩ := hid
  exact ⟨main, (h.opened id main).mp hm⟩

theorem describes_empty : Describes (empty : Ledger ι) [] := by
  refine ⟨?_, ?_, ?_, ?_⟩ <;> simp [empty, OpenIn]

/-- An event that neither opens nor closes, about an identifier already seen. -/
theorem Describes.passing (h : L.Describes marks) (hopen : ∀ id main, m ≠ .opened id main)
    (hclose : ∀ id, m ≠ .closed id) (hid : ∀ id, m.id? = some id → id ∈ L.ids) :
    L.Describes (marks ++ [m]) := by
  refine ⟨?_, ?_, ?_, h.main⟩
  · intro id main
    simp [h.opened id main, OpenIn, (hopen id main).symm, (hclose id).symm]
  · intro id
    simp [h.finished id, (hclose id).symm]
  · intro x hx id hxid
    rcases mem_append.mp hx with hx | hx
    · exact h.seen x hx id hxid
    · obtain rfl : x = m := by simpa using hx
      exact hid id hxid

theorem Describes.opening (h : L.Describes marks) (hnew : id ∉ L.ids)
    (hmain : main = true → ¬ ∃ o ∈ L.opened, o.2 = true) :
    Describes { L with opened := (id, main) :: L.opened } (marks ++ [.opened id main]) := by
  have hfresh : .closed id ∉ marks := fun hc => hnew (h.seen _ hc id rfl)
  refine ⟨?_, ?_, ?_, ?_⟩
  · intro x b
    simp only [mem_cons, Prod.mk.injEq, h.opened x b, OpenIn, mem_append,
      not_mem_nil, Mark.opened.injEq, reduceCtorEq, or_false]
    constructor
    · rintro (⟨rfl, rfl⟩ | ⟨ho, hc⟩)
      · exact ⟨.inr ⟨rfl, rfl⟩, hfresh⟩
      · exact ⟨.inl ho, hc⟩
    · rintro ⟨ho | ⟨rfl, rfl⟩, hc⟩
      · exact .inr ⟨ho, hc⟩
      · exact .inl ⟨rfl, rfl⟩
  · intro x
    simp [h.finished x]
  · intro m hm x hx
    simp only [ids, map_cons, cons_append, mem_cons]
    rcases mem_append.mp hm with hm | hm
    · exact .inr (h.seen m hm x hx)
    · obtain rfl : m = .opened id main := by simpa using hm
      exact .inl (some.inj hx).symm
  · intro o ho o' ho' hb hb'
    rcases mem_cons.mp ho with rfl | ho <;> rcases mem_cons.mp ho' with rfl | ho'
    · rfl
    · exact absurd ⟨o', ho', hb'⟩ (hmain hb)
    · exact absurd ⟨o, ho, hb⟩ (hmain hb')
    · exact h.main o ho o' ho' hb hb'

/-! ## Reading a sequence -/

variable [DecidableEq ι]

def step (L : Ledger ι) : Mark ι → Option (Ledger ι)
  | .silent => some L
  | .opened id main =>
    if id ∈ L.ids ∨ (main = true ∧ ∃ o ∈ L.opened, o.2 = true) then none
    else some { L with opened := (id, main) :: L.opened }
  | .carried id => if id ∈ L.opened.map Prod.fst then some L else none
  | .closed id =>
    if id ∈ L.opened.map Prod.fst then
      some ⟨L.opened.filter (·.1 ≠ id), id :: L.finished⟩
    else none

def run (L : Ledger ι) (marks : List (Mark ι)) : Option (Ledger ι) := marks.foldlM step L

@[simp] theorem run_nil (L : Ledger ι) : L.run [] = some L := rfl

@[simp] theorem run_cons (L : Ledger ι) (m : Mark ι) (ms : List (Mark ι)) :
    L.run (m :: ms) = (L.step m).bind (·.run ms) := rfl

theorem run_append (L : Ledger ι) (ms ms' : List (Mark ι)) :
    L.run (ms ++ ms') = (L.run ms).bind (·.run ms') := by
  induction ms generalizing L with
  | nil => rfl
  | cons m ms ih =>
    rw [cons_append, run_cons, run_cons]
    cases L.step m with
    | none => rfl
    | some L' => exact ih L'

theorem run_silent (L : Ledger ι) (ms : List (Mark ι)) (h : ∀ m ∈ ms, m = .silent) :
    L.run ms = some L := by
  induction ms with
  | nil => rfl
  | cons m ms ih =>
    rw [h m mem_cons_self]
    exact ih fun x hx => h x (mem_cons_of_mem _ hx)

theorem run_carried (L : Ledger ι) (hid : id ∈ L.opened.map fst) (ms : List (Mark ι))
    (h : ∀ m ∈ ms, m = .silent ∨ m = .carried id) : L.run ms = some L := by
  induction ms with
  | nil => rfl
  | cons m ms ih =>
    have hrest := ih fun x hx => h x (mem_cons_of_mem _ hx)
    rw [run_cons]
    rcases h m mem_cons_self with rfl | rfl
    · exact hrest
    · rw [step, if_pos hid]
      exact hrest

theorem step_opened_eq (hid : id ∉ L.ids) (hmain : main = true → ¬ ∃ o ∈ L.opened, o.2 = true) :
    L.step (.opened id main) = some { L with opened := (id, main) :: L.opened } := by
  rw [step, if_neg]
  rintro (h | ⟨h, ho⟩)
  · exact hid h
  · exact hmain h ho

theorem run_burst (hid : id ∉ L.ids) (hmain : main = true → ¬ ∃ o ∈ L.opened, o.2 = true)
    (ms : List (Mark ι)) (h : ∀ m ∈ ms, m = .silent ∨ m = .carried id) :
    L.run (.opened id main :: (ms ++ [.closed id])) = some { L with finished := id :: L.finished } := by
  have hopen : id ∈ ((id, main) :: L.opened).map fst := by simp
  have hfilter : ((id, main) :: L.opened).filter (·.1 ≠ id) = L.opened := by
    rw [filter_cons_of_neg (by simp), filter_eq_self]
    intro o ho
    have : o.1 ∈ L.ids := mem_append_left _ (mem_map_of_mem ho)
    have hne : o.1 ≠ id := fun heq => hid (heq ▸ this)
    simpa using hne
  rw [run_cons, step_opened_eq hid hmain, bind_some, run_append,
    run_carried _ hopen ms h, bind_some, run_cons, step, if_pos hopen, hfilter]
  rfl

theorem run_close (ho : L.opened = [(id, main)]) (ms : List (Mark ι))
    (h : ∀ m ∈ ms, m = .silent ∨ m = .carried id) :
    L.run (ms ++ [.closed id]) = some ⟨[], id :: L.finished⟩ := by
  have hopen : id ∈ L.opened.map fst := by simp [ho]
  rw [run_append, run_carried L hopen ms h, bind_some, run_cons, step, ho]
  simp

theorem step_opened (hs : L.step (.opened id main) = some L') :
    id ∉ L.ids ∧ (main = true → ¬ ∃ o ∈ L.opened, o.2 = true) ∧
      L' = { L with opened := (id, main) :: L.opened } := by
  obtain ⟨hgood, ⟨⟩⟩ := ite_none_left_eq_some.mp hs
  rw [not_or, not_and] at hgood
  exact ⟨hgood.1, hgood.2, rfl⟩

theorem step_carried (hs : L.step (.carried id) = some L') : id ∈ L.opened.map fst ∧ L' = L := by
  obtain ⟨hid, ⟨⟩⟩ := ite_none_right_eq_some.mp hs
  exact ⟨hid, rfl⟩

theorem step_closed (hs : L.step (.closed id) = some L') :
    id ∈ L.opened.map fst ∧ L' = ⟨L.opened.filter (·.1 ≠ id), id :: L.finished⟩ := by
  obtain ⟨hid, ⟨⟩⟩ := ite_none_right_eq_some.mp hs
  exact ⟨hid, rfl⟩

theorem Describes.closing (h : L.Describes marks) (hid : id ∈ L.opened.map fst) :
    Describes ⟨L.opened.filter (·.1 ≠ id), id :: L.finished⟩ (marks ++ [.closed id]) := by
  refine ⟨?_, ?_, ?_, ?_⟩
  · intro x b
    simp [h.opened x b, OpenIn, and_assoc]
  · intro x
    simp [h.finished x, or_comm]
  · intro m hm x hx
    have hx' : x ∈ L.ids := by
      rcases mem_append.mp hm with hm | hm
      · exact h.seen m hm x hx
      · obtain rfl : m = .closed id := by simpa using hm
        obtain rfl : id = x := some.inj hx
        exact mem_append_left _ hid
    by_cases hxid : x = id
    · simp [ids, hxid]
    · simp only [ids, mem_append, List.mem_map, mem_filter, mem_cons] at hx' ⊢
      rcases hx' with ⟨o, ho, rfl⟩ | hf
      · exact .inl ⟨o, ⟨ho, by simpa using hxid⟩, rfl⟩
      · exact .inr (.inr hf)
  · intro o ho o' ho'
    exact h.main o (mem_of_mem_filter ho) o' (mem_of_mem_filter ho')

theorem Describes.step (h : L.Describes marks) (hs : L.step m = some L') :
    L'.Describes (marks ++ [m]) := by
  cases m with
  | silent =>
    obtain rfl : L = L' := by simpa [Ledger.step] using hs
    exact h.passing (by simp) (by simp) (by simp [Mark.id?])
  | carried id =>
    obtain ⟨hid, rfl⟩ := step_carried hs
    refine h.passing (by simp) (by simp) fun x hx => ?_
    obtain rfl : id = x := some.inj hx
    exact mem_append_left _ hid
  | opened id main =>
    obtain ⟨hnew, hmain, rfl⟩ := step_opened hs
    exact h.opening hnew hmain
  | closed id =>
    obtain ⟨hid, rfl⟩ := step_closed hs
    exact h.closing hid

theorem describes_run {marks ms : List (Mark ι)} (h : L.Describes marks) (hr : L.run ms = some L') :
    L'.Describes (marks ++ ms) := by
  induction ms generalizing L marks with
  | nil =>
    obtain rfl : L = L' := by simpa using hr
    simpa using h
  | cons m ms ih =>
    rw [run_cons] at hr
    cases hs : L.step m with
    | none => simp [hs] at hr
    | some L₁ =>
      rw [hs] at hr
      have := ih (h.step hs) hr
      simpa using this

/-! ## Accepted sequences -/

theorem run_before {pre post : List (Mark ι)} (hr : (empty : Ledger ι).run (pre ++ post) = some L') :
    ∃ L : Ledger ι, L.Describes pre ∧ L.run post = some L' := by
  rw [run_append] at hr
  obtain ⟨L, hp, hpost⟩ := bind_eq_some_iff.mp hr
  exact ⟨L, by simpa using describes_run describes_empty hp, hpost⟩

/-- Cutting an accepted sequence: the ledger at the cut describes the part before
it and accepts the event after it. -/
theorem run_cut {marks pre post : List (Mark ι)} (hr : (empty : Ledger ι).run marks = some L')
    (hm : marks = pre ++ m :: post) : ∃ L L₁ : Ledger ι, L.Describes pre ∧ L.step m = some L₁ := by
  obtain ⟨L, hd, hpost⟩ := run_before (hm ▸ hr)
  rw [run_cons] at hpost
  obtain ⟨L₁, hs, -⟩ := bind_eq_some_iff.mp hpost
  exact ⟨L, L₁, hd, hs⟩

theorem run_wellBracketed (hr : (empty : Ledger ι).run marks = some L) : WellBracketed marks := by
  refine ⟨?_, ?_, ?_, ?_⟩
  · intro pre post id main hm m hmem hid
    obtain ⟨L₀, L₁, hd, hs⟩ := run_cut hr hm
    exact (step_opened hs).1 (hd.seen m hmem id hid)
  · intro pre post id hm m hmem hid
    obtain ⟨p, q, rfl⟩ := append_of_mem hmem
    have hm' : marks = (pre ++ .closed id :: p) ++ m :: q := by simp [hm]
    obtain ⟨L₀, L₁, hd, hs⟩ := run_cut hr hm'
    have hfin : id ∈ L₀.finished := (hd.finished id).mpr (by simp)
    have hclosed : id ∉ L₀.opened.map fst := by
      intro ho
      obtain ⟨main, hopen⟩ := hd.mem_opened ho
      exact hopen.2 (by simp)
    cases m with
    | silent => simp [Mark.id?] at hid
    | opened x main =>
      obtain rfl : x = id := some.inj hid
      exact (step_opened hs).1 (mem_append_right _ hfin)
    | carried x =>
      obtain rfl : x = id := some.inj hid
      exact hclosed (step_carried hs).1
    | closed x =>
      obtain rfl : x = id := some.inj hid
      exact hclosed (step_closed hs).1
  · intro pre post m id hm hid
    obtain ⟨L₀, L₁, hd, hs⟩ := run_cut hr hm
    have ho : id ∈ L₀.opened.map fst := by
      rcases hid with rfl | rfl
      · exact (step_carried hs).1
      · exact (step_closed hs).1
    obtain ⟨main, hopen⟩ := hd.mem_opened ho
    exact ⟨main, hopen.1⟩
  · intro pre post hm id id' ho ho'
    obtain ⟨L₀, hd, -⟩ := run_before (hm ▸ hr)
    have := hd.main _ ((hd.opened id true).mpr ho) _ ((hd.opened id' true).mpr ho') rfl rfl
    exact congrArg fst this

end Ledger

end MockAgents.Lib.Lifecycle
