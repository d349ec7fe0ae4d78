import Mathlib
/-!
# When a recursion comes to an end

A recursion is given by the list of the calls each call makes.  It ends from a call if
some depth suffices, which is to say that the call is accessible.  Over finitely many
calls that make calls themselves, that is the absence of a cycle in reach.
-/

namespace MockAgents.Lib.Descent

open Relation List

variable {α : Type}

/-! ## Depth -/

section Depth
variable (calls : α → List α)

/-- The recursion from a call ends within a depth. -/
def ends : Nat → α → Bool
  | 0, _ => false
  | n + 1, a => (calls a).all (ends n)

def Makes (a b : α) : Prop := b ∈ calls a

variable {calls}
variable {n : Nat} {a : α}

theorem ends_succ (h : ends calls n a = true) : ends calls (n + 1) a = true := by
  induction n generalizing a with
  | zero => simp [ends] at h
  | succ n ih =>
    rw [ends, all_eq_true] at h ⊢
    exact fun b hb => ih (h b hb)

theorem ends_mono {m : Nat} (hnm : n ≤ m) (h : ends calls n a = true) : ends calls m a = true := by
  induction hnm with
  | refl => exact h
  | step _ ih => exact ends_succ ih

theorem exists_ends_all {l : List α} (h : ∀ a ∈ l, ∃ n, ends calls n a = true) :
    ∃ n, l.all (ends calls n) = true := by
  induction l with
  | nil => exact ⟨0, rfl⟩
  | cons a l ih =>
    obtain ⟨n, hn⟩ := h a (by simp)
    obtain ⟨m, hm⟩ := ih fun b hb => h b (by simp [hb])
    refine ⟨max n m, all_eq_true.mpr fun b hb => ?_⟩
    rcases mem_cons.mp hb with rfl | hb
    · exact ends_mono (by omega) hn
    · exact ends_mono (by omega) (all_eq_true.mp hm b hb)

theorem acc_of_ends (h : ends calls n a = true) : Acc (flip (Makes calls)) a := by
  induction n generalizing a with
  | zero => simp [ends] at h
  | succ n ih =>
    rw [ends, all_eq_true] at h
    exact Acc.intro a fun b hb => ih (h b hb)

theorem exists_ends_iff : (∃ n, ends calls n a = true) ↔ Acc (flip (Makes calls)) a := by
  refine ⟨fun ⟨n, h⟩ => acc_of_ends h, fun h => ?_⟩
  induction h with
  | intro a _ ih =>
    obtain ⟨n, hn⟩ := exists_ends_all ih
    exact ⟨n + 1, hn⟩

end Depth

/-! ## Cycles -/

section Cycles
variable {r : α → α → Prop}
variable {a : α}

theorem irrefl_of_acc (h : Acc r a) : ¬ r a a := by
  induction h with
  | intro a _ ih => exact fun hself => ih a hself hself

theorem not_cycle_of_acc (h : Acc (flip r) a) : ¬ TransGen r a a := fun hcycle =>
  irrefl_of_acc h.transGen (transGen_swap.mpr hcycle)

theorem acc_of_reached {b : α} (h : Acc (flip r) a) (hab : ReflTransGen r a b) :
    Acc (flip r) b := by
  induction hab with
  | refl => exact h
  | tail _ hbc ih => exact ih.inv hbc

open Classical in
/-- Where only finitely many elements have a successor, an element with no cycle in its reach
is accessible. -/
theorem acc_of_no_cycle {S : Finset α} (hS : ∀ a b, r a b → a ∈ S)
    (h : ∀ b, ReflTransGen r a b → ¬ TransGen r b b) : Acc (flip r) a := by
  -- by induction on the number of elements of `S` that can be reached in at least one step
  induction hn : (S.filter (TransGen r a)).card using Nat.strong_induction_on generalizing a with
  | _ n ih =>
    refine Acc.intro a fun b hab => ?_
    replace hab : r a b := hab
    have hb : ∀ c, ReflTransGen r b c → ¬ TransGen r c c := fun c hbc => h c (.head hab hbc)
    by_cases hbS : b ∈ S
    · refine ih _ ?_ hb rfl
      rw [← hn]
      have hsub : S.filter (TransGen r b) ⊆ S.filter (TransGen r a) := by
        intro c hc
        rw [Finset.mem_filter] at hc ⊢
        exact ⟨hc.1, .head hab hc.2⟩
      refine Finset.card_lt_card ((Finset.ssubset_iff_of_subset hsub).mpr ⟨b, ?_, ?_⟩)
      · simp [hbS, TransGen.single hab]
      · simp [hb b .refl]
    · exact Acc.intro b fun c hbc => absurd (hS b c hbc) hbS

end Cycles

end MockAgents.Lib.Descent
