import Mathlib.Data.List.Basic
/-!
# Turns in an event sequence

A speaker starts a turn under an identifier and stops it, and a stopped turn is
committed at once.  A floor reads such a sequence and refuses it at the first event
out of place; in what it accepts every stop belongs to the latest start, is followed
by its commit, and no identifier is committed twice.
-/

namespace MockAgents.Lib.Turns

open List Option

/-- What one event says about turns. -/
inductive Mark (ι : Type) where
  | silent
  | started (id : ι)
  | stopped (id : ι)
  | committed (id : ι)
deriving DecidableEq

variable {ι : Type}

def Mark.started? : Mark ι → Option ι
  | .started id => some id
  | _ => none

def latestStart (marks : List (Mark ι)) : Option ι := (marks.filterMap Mark.started?).getLast?

/-- A stop ends the latest turn and is committed right away; no commit is repeated. -/
structure WellTurned [DecidableEq ι] (marks : List (Mark ι)) : Prop where
  stopped : ∀ pre post id, marks = pre ++ .stopped id :: post →
    latestStart pre = some id ∧ ∃ rest, post = .committed id :: rest
  once : ∀ id, marks.count (.committed id) ≤ 1

/-- The latest start, the stop whose commit is due, and the commits so far. -/
structure Floor (ι : Type) where
  latest : Option ι
  due : Option ι
  committed : List ι

namespace Floor

variable [DecidableEq ι]
variable {f f' : Floor ι} {marks : List (Mark ι)}

def empty : Floor ι := ⟨none, none, []⟩

def step (f : Floor ι) : Mark ι → Option (Floor ι)
  | .silent => if f.due = none then some f else none
  | .started id => if f.due = none then some { f with latest := some id } else none
  | .stopped id =>
    if f.due = none ∧ f.latest = some id then some { f with due := some id } else none
  | .committed id =>
    if (f.due = none ∨ f.due = some id) ∧ id ∉ f.committed then
      some { f with due := none, committed := id :: f.committed }
    else none

def run (f : Floor ι) : List (Mark ι) → Option (Floor ι)
  | [] => some f
  | m :: marks => (f.step m).bind fun f => f.run marks

theorem run_append (f : Floor ι) (marks more : List (Mark ι)) :
    f.run (marks ++ more) = (f.run marks).bind fun f => f.run more := by
  induction marks generalizing f with
  | nil => rfl
  | cons m marks ih =>
    cases h : f.step m with
    | none => simp [run, h]
    | some f' => simp [run, h, ih]

theorem run_silent (hdue : f.due = none) (marks : List (Mark ι))
    (h : ∀ m ∈ marks, m = .silent) : f.run marks = some f := by
  induction marks with
  | nil => rfl
  | cons m marks ih =>
    obtain rfl := h m mem_cons_self
    rw [run, step, if_pos hdue]
    exact ih fun m hm => h m (mem_cons_of_mem _ hm)

theorem step_latest {m : Mark ι} (h : f.step m = some f') : f'.latest = m.started?.or f.latest := by
  cases m <;> simp only [step, ite_none_right_eq_some, some.injEq] at h <;>
    obtain ⟨_, rfl⟩ := h <;> simp [Mark.started?]

theorem run_latest (h : f.run marks = some f') : f'.latest = (latestStart marks).or f.latest := by
  induction marks generalizing f with
  | nil =>
    obtain rfl := some.inj h
    simp [latestStart]
  | cons m marks ih =>
    obtain ⟨f₁, hm, hrest⟩ := bind_eq_some_iff.mp h
    rw [ih hrest, step_latest hm]
    cases hs : m.started? with
    | none => simp [latestStart, hs]
    | some id => cases hl : (marks.filterMap Mark.started?).getLast? <;>
        simp [latestStart, hs, hl, getLast?_cons]

theorem run_once (h : f.run marks = some f') (id : ι) :
    marks.count (.committed id) ≤ 1 ∧ (id ∈ f.committed → marks.count (.committed id) = 0) := by
  induction marks generalizing f with
  | nil => simp
  | cons m marks ih =>
    obtain ⟨f₁, hm, hrest⟩ := bind_eq_some_iff.mp h
    obtain ⟨hle, hzero⟩ := ih hrest
    cases m with
    | committed x =>
      simp only [step, ite_none_right_eq_some, some.injEq] at hm
      obtain ⟨⟨_, hnew⟩, rfl⟩ := hm
      rcases eq_or_ne x id with rfl | hne
      · rw [count_cons_self, hzero mem_cons_self]
        exact ⟨Nat.le_refl 1, fun hx => absurd hx hnew⟩
      · rw [count_cons_of_ne (by simpa using hne)]
        exact ⟨hle, fun hx => hzero (mem_cons_of_mem _ hx)⟩
    | _ =>
      simp only [step, ite_none_right_eq_some, some.injEq] at hm
      obtain ⟨_, rfl⟩ := hm
      exact ⟨hle, hzero⟩

theorem run_wellTurned (h : empty.run marks = some f) (hdue : f.due = none) : WellTurned marks := by
  refine ⟨?_, fun id => (run_once h id).1⟩
  rintro pre post id rfl
  rw [run_append] at h
  obtain ⟨f₁, hpre, h⟩ := bind_eq_some_iff.mp h
  obtain ⟨f₂, hstop, hpost⟩ := bind_eq_some_iff.mp h
  simp only [step, ite_none_right_eq_some, some.injEq] at hstop
  obtain ⟨⟨_, hlatest⟩, rfl⟩ := hstop
  refine ⟨?_, ?_⟩
  · have := run_latest hpre
    rw [hlatest] at this
    simpa [empty] using this.symm
  · -- with a commit due, only that commit is accepted
    cases post with
    | nil =>
      obtain rfl := some.inj hpost
      cases hdue
    | cons m rest =>
      obtain ⟨f₃, hm, _⟩ := bind_eq_some_iff.mp hpost
      cases m with
      | committed x =>
        simp only [step, ite_none_right_eq_some, some.injEq, reduceCtorEq, false_or] at hm
        obtain ⟨⟨rfl, _⟩, _⟩ := hm
        exact ⟨rest, rfl⟩
      | _ => simp [step] at hm

end Floor

end MockAgents.Lib.Turns
