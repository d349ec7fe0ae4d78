import MockAgents.Lib.Pool
/-!
# The calls of one owner

The calls an owner has among others, numbered among themselves, and the actions that are
theirs.  Where the steps of the other calls change nothing the owner's calls depend on,
those calls go through the same states as in the run of the owner's actions alone.
-/

namespace MockAgents.Lib

open List

universe u

variable {σ τ κ : Type} {χ : Type u} {mine : τ → Bool}

/-! ## A sublist of calls -/

section Filter
variable {l : List τ} {i : Nat} {t t' : τ}

def rank (mine : τ → Bool) (l : List τ) (i : Nat) : Nat := (l.take i).countP mine

theorem filter_set (h : l[i]? = some t) (t' : τ) :
    (l.set i t').filter mine = (l.take i).filter mine ++ ([t'].filter mine ++ (l.drop (i + 1)).filter mine) := by
  have hlt := (List.getElem?_eq_some_iff.mp h).choose
  rw [set_eq_take_append_cons_drop, if_pos hlt, filter_append, ← singleton_append, filter_append]

theorem filter_split (h : l[i]? = some t) :
    l.filter mine = (l.take i).filter mine ++ ([t].filter mine ++ (l.drop (i + 1)).filter mine) := by
  rw [← filter_set h]
  obtain ⟨hlt, rfl⟩ := List.getElem?_eq_some_iff.mp h
  rw [set_getElem_self]

theorem getElem?_filter_rank (h : l[i]? = some t) (ht : mine t = true) :
    (l.filter mine)[rank mine l i]? = some t := by
  simp [filter_split h, rank, countP_eq_length_filter, ht]

theorem filter_set_of_mine (h : l[i]? = some t) (ht : mine t = true) (ht' : mine t' = true) :
    (l.set i t').filter mine = (l.filter mine).set (rank mine l i) t' := by
  simp [filter_set h, filter_split h, rank, countP_eq_length_filter, ht, ht']

theorem filter_set_of_not_mine (h : l[i]? = some t) (ht : mine t = false) (ht' : mine t' = false) :
    (l.set i t').filter mine = l.filter mine := by
  simp [filter_set h, filter_split h, ht, ht']

end Filter

namespace System

variable (sys : System σ τ κ χ)

def ownAct (mine : τ → Bool) (w : Pool σ τ) : Act κ χ → List (Act κ χ)
  | .start call => if mine (sys.start call) then [.start call] else []
  | .step i choice =>
    if (w.calls[i]?).any mine then [.step (rank mine w.calls i) choice] else []

def ownActs (mine : τ → Bool) (w : Pool σ τ) : List (Act κ χ) → List (Act κ χ)
  | [] => []
  | a :: acts => sys.ownAct mine w a ++ ownActs mine (sys.act w a) acts

variable {sys}

/-- The owner's calls and what they depend on are the same in both. -/
def Alike (mine : τ → Bool) (R : σ → σ → Prop) (w w' : Pool σ τ) : Prop :=
  w.calls.filter mine = w'.calls ∧ R w.shared w'.shared

section
variable {R : σ → σ → Prop}
  (hmine : ∀ choice s t, mine (sys.next choice s t).2 = mine t)
  (hown : ∀ choice s s' t, mine t = true → R s s' →
    R (sys.next choice s t).1 (sys.next choice s' t).1 ∧
      (sys.next choice s t).2 = (sys.next choice s' t).2)
  (hother : ∀ choice s s' t, mine t = false → R s s' → R (sys.next choice s t).1 s')
include hmine hown hother

theorem Alike.act {w w' : Pool σ τ} (h : Alike mine R w w') (a : Act κ χ) :
    Alike mine R (sys.act w a) (sys.run w' (sys.ownAct mine w a)) := by
  cases a with
  | start call =>
    cases hc : mine (sys.start call) with
    | true => simpa [Alike, System.act, ownAct, hc] using h
    | false => simpa [Alike, System.act, ownAct, hc] using h
  | step i choice =>
    cases hi : w.calls[i]? with
    | none => simpa [act_step_none hi, ownAct, hi] using h
    | some t =>
      have hnext := hmine choice w.shared t
      rw [act_step_eq hi]
      cases ht : mine t with
      | false =>
        rw [ht] at hnext
        have hnil : sys.ownAct mine w (.step i choice) = [] := by simp [ownAct, hi, ht]
        rw [hnil]
        exact ⟨(filter_set_of_not_mine hi ht hnext).trans h.1, hother choice _ _ t ht h.2⟩
      | true =>
        rw [ht] at hnext
        have hsame : w'.calls[rank mine w.calls i]? = some t := by
          rw [← h.1]
          exact getElem?_filter_rank hi ht
        have hone : sys.ownAct mine w (.step i choice) =
            [.step (rank mine w.calls i) choice] := by simp [ownAct, hi, ht]
        obtain ⟨hR, heq⟩ := hown choice _ _ t ht h.2
        rw [hone, run_cons, run_nil, act_step_eq hsame]
        refine ⟨?_, hR⟩
        rw [filter_set_of_mine hi ht hnext, h.1, heq]

/-- The owner's calls do not notice the others. -/
theorem Alike.run {w w' : Pool σ τ} (h : Alike mine R w w') (acts : List (Act κ χ)) :
    Alike mine R (sys.run w acts) (sys.run w' (sys.ownActs mine w acts)) := by
  induction acts generalizing w w' with
  | nil => exact h
  | cons a acts ih =>
    rw [ownActs, run_append]
    exact ih (h.act hmine hown hother a)

end

end System

end MockAgents.Lib
