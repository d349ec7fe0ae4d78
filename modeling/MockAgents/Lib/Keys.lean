import Mathlib.Data.List.Basic
/-!
# Keys joined by a separator

A key that joins its parts with a separator determines the part before the first
separator, or the one after the last, if that part does not contain it.
-/

namespace MockAgents.Lib.Keys

open List

variable {α : Type} {c : α} {x y u v : List α}

theorem first_inj (hx : c ∉ x) (hy : c ∉ y) (h : x ++ c :: u = y ++ c :: v) : x = y ∧ u = v := by
  rcases append_eq_append_iff.mp h with ⟨w, hy', hw⟩ | ⟨w, hx', hw⟩
  · cases w with
    | nil => exact ⟨by simpa using hy'.symm, by simpa using hw⟩
    | cons a w =>
      obtain ⟨rfl, -⟩ := cons.inj hw
      exact absurd (by simp [hy']) hy
  · cases w with
    | nil => exact ⟨by simpa using hx', by simpa using hw.symm⟩
    | cons a w =>
      obtain ⟨rfl, -⟩ := cons.inj hw
      exact absurd (by simp [hx']) hx

theorem last_inj (hu : c ∉ u) (hv : c ∉ v) (h : x ++ c :: u = y ++ c :: v) : x = y ∧ u = v := by
  have hrev := congrArg List.reverse h
  simp only [reverse_append, reverse_cons, append_assoc, singleton_append] at hrev
  obtain ⟨huv, hxy⟩ := first_inj (by simpa using hu) (by simpa using hv) hrev
  exact ⟨reverse_inj.mp hxy, reverse_inj.mp huv⟩

end MockAgents.Lib.Keys
