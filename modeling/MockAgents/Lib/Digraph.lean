import Mathlib
/-!
# Acyclic relations

Directed graphs as bare relations.  `Acyclic` is the absence of a closed walk;
the lemmas are the three facts a peeling or colouring algorithm needs: a finite
acyclic set has a source, and a set that is closed under predecessors (or under
successors) can be extended by one vertex without creating a closed walk.
-/

namespace MockAgents.Lib.Digraph

open Relation TransGen

variable {α : Type*} {r : α → α → Prop}
variable {S : α → Prop} {v : α}

def Acyclic (r : α → α → Prop) : Prop := ∀ a, ¬ TransGen r a a

/-- Every non-empty finite set of vertices of an acyclic graph has a member
without a predecessor inside the set. -/
theorem Acyclic.exists_source (hr : Acyclic r) {S : Finset α} (hS : S.Nonempty) :
    ∃ a ∈ S, ∀ b ∈ S, ¬ r b a := by
  let q : S → S → Prop := fun a b => TransGen r a.1 b.1
  have hirrefl : Std.Irrefl q := ⟨fun a h => hr a.1 h⟩
  have hwf : WellFounded q := Finite.wellFounded_of_trans_of_irrefl q
  obtain ⟨a, _, hmin⟩ := hwf.has_min Set.univ ⟨⟨_, hS.choose_spec⟩, trivial⟩
  refine ⟨a.1, a.2, fun b hb hba => ?_⟩
  exact hmin ⟨b, hb⟩ trivial (single hba)

/-- A vertex all of whose predecessors avoid closed walks avoids them too. -/
theorem not_cycle_of_preds (hS : ∀ a, S a → ¬ TransGen r a a) (hpred : ∀ u, r u v → S u) :
    ¬ TransGen r v v := by
  intro hcycle
  obtain ⟨u, hvu, huv⟩ := tail'_iff.mp hcycle
  exact hS u (hpred u huv) (head' huv hvu)

theorem mem_of_reach (hclosed : ∀ a b, S a → r a b → S b)
    {a b : α} (ha : S a) (hab : ReflTransGen r a b) : S b := by
  induction hab with
  | refl => exact ha
  | tail _ hstep ih => exact hclosed _ _ ih hstep

/-- A vertex outside a successor-closed set whose successors all lie inside it
is on no closed walk. -/
theorem not_cycle_of_succs (hclosed : ∀ a b, S a → r a b → S b) (hv : ¬ S v)
    (hsucc : ∀ w, r v w → S w) : ¬ TransGen r v v := by
  intro hcycle
  obtain ⟨w, hvw, hwv⟩ := head'_iff.mp hcycle
  exact hv (mem_of_reach hclosed (hsucc w hvw) hwv)

end MockAgents.Lib.Digraph
