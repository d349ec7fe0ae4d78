import Mathlib.Order.Bounds.Basic
/-!
# Edit distance

The least number of insertions, deletions and substitutions that turn one text into another,
with the recurrence by which a table of distances is filled.
-/

namespace MockAgents.Lib

open List

variable {α : Type}

/-- A script run from left to right turns a text into another with so many insertions, deletions
and substitutions. -/
inductive Edits : List α → List α → Nat → Prop
  | nil : Edits [] [] 0
  | keep (c : α) : Edits s t n → Edits (s ++ [c]) (t ++ [c]) n
  | substitute (c d : α) : Edits s t n → Edits (s ++ [c]) (t ++ [d]) (n + 1)
  | delete (c : α) : Edits s t n → Edits (s ++ [c]) t (n + 1)
  | insert (d : α) : Edits s t n → Edits s (t ++ [d]) (n + 1)

variable [DecidableEq α] {s t : List α} {n : Nat}

/-- The recurrence, over texts that are read from their end. -/
def distance : List α → List α → Nat
  | [], t => t.length
  | c :: s, [] => (c :: s).length
  | c :: s, d :: t =>
    min (min (distance s (d :: t) + 1) (distance (c :: s) t + 1)) (distance s t + if c = d then 0 else 1)

theorem distance_nil_right (s : List α) : distance s [] = s.length := by
  cases s <;> rw [distance]

theorem distance_insert_le (s t : List α) (d : α) : distance s (d :: t) ≤ distance s t + 1 := by
  cases s with
  | nil => simp [distance]
  | cons c s =>
    rw [distance]
    omega

theorem distance_delete_le (s t : List α) (c : α) : distance (c :: s) t ≤ distance s t + 1 := by
  cases t with
  | nil => simp [distance_nil_right]
  | cons d t =>
    rw [distance]
    omega

theorem Edits.distance_le (h : Edits s t n) : distance s.reverse t.reverse ≤ n := by
  induction h with
  | nil => simp [distance]
  | keep c h ih =>
    rw [reverse_concat, reverse_concat, distance, if_pos rfl]
    omega
  | substitute c d h ih =>
    rw [reverse_concat, reverse_concat, distance]
    split <;> omega
  | delete c h ih =>
    rw [reverse_concat]
    exact (distance_delete_le _ _ c).trans (Nat.succ_le_succ ih)
  | insert d h ih =>
    rw [reverse_concat]
    exact (distance_insert_le _ _ d).trans (Nat.succ_le_succ ih)

theorem edits_distance (s t : List α) : Edits s.reverse t.reverse (distance s t) := by
  induction s, t using distance.induct with
  | case1 t =>
    rw [distance]
    induction t with
    | nil => exact .nil
    | cons d t ih => simpa using ih.insert d
  | case2 c s =>
    rw [distance]
    induction s generalizing c with
    | nil => exact Edits.nil.delete c
    | cons c' s ih => simpa using (ih c').delete c
  | case3 c s d t ihdelete ihinsert ih =>
    rw [distance]
    have hmatch : Edits (c :: s).reverse (d :: t).reverse (distance s t + if c = d then 0 else 1) := by
      rw [reverse_cons, reverse_cons]
      split
      next heq => exact heq ▸ ih.keep c
      next => exact ih.substitute c d
    have hdelete := ihdelete.delete c
    have hinsert := ihinsert.insert d
    rw [← reverse_cons] at hdelete hinsert
    exact min_rec' _ (min_rec' _ hdelete hinsert) hmatch

/-- The recurrence finds the least number of edits. -/
theorem isLeast_distance (s t : List α) :
    IsLeast {n | Edits s t n} (distance s.reverse t.reverse) := by
  refine ⟨?_, fun n h => h.distance_le⟩
  simpa using edits_distance s.reverse t.reverse

end MockAgents.Lib
