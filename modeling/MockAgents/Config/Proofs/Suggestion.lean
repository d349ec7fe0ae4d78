import MockAgents.Config.StrictFields
import MockAgents.Lib.EditDistance
/-!
# Spelling suggestions

Each row of the table in `editDistance` holds the distances of a prefix of the first text from
the prefixes of the second.
-/

namespace MockAgents.Config

open Lib List

/-! ## The table -/

/-- A row of the table from the prefix `p` on; prefixes are read from their end. -/
def distances (s p : List Char) : List Char → List Nat
  | [] => [distance s p]
  | b :: rb => distance s p :: distances s (b :: p) rb

theorem editRow_distances (a : Char) (s p rb : List Char) :
    editRow a rb (distances s p rb) (distance (a :: s) p) = distances (a :: s) p rb := by
  induction rb generalizing p with
  | nil => rfl
  | cons b rb ih =>
    obtain ⟨rest, hrest⟩ : ∃ rest, distances s (b :: p) rb = distance s (b :: p) :: rest := by
      cases rb <;> exact ⟨_, rfl⟩
    have hnext := ih (b :: p)
    rw [hrest, distance] at hnext
    rw [distances, distances, hrest, editRow, hnext]

theorem distances_nil (p rb : List Char) : distances [] p rb = range' p.length (rb.length + 1) := by
  induction rb generalizing p with
  | nil => simp [distances, distance]
  | cons b rb ih => rw [distances, ih, distance, length_cons, length_cons, ← range'_succ]

theorem getLastD_distances (s p rb : List Char) :
    (distances s p rb).getLastD 0 = distance s (rb.reverse ++ p) := by
  induction rb generalizing p with
  | nil => rfl
  | cons b rb ih =>
    rw [reverse_cons, append_assoc, singleton_append, ← ih, distances]
    cases rb <;> rfl

/-- Going through the first text takes the row of one prefix to that of the next. -/
theorem foldl_editRow (s ra rb : List Char) :
    (ra.zipIdx s.length).foldl (fun prev e => editRow e.1 rb prev (e.2 + 1)) (distances s [] rb) =
      distances (ra.reverse ++ s) [] rb := by
  induction ra generalizing s with
  | nil => rfl
  | cons a ra ih =>
    have hrow := editRow_distances a s [] rb
    rw [distance_nil_right, length_cons] at hrow
    rw [zipIdx_cons, foldl_cons, hrow, reverse_cons, append_assoc]
    exact ih (a :: s)

theorem editDistance_eq (a b : Bytes) :
    editDistance a b = distance (runeValues a).reverse (runeValues b).reverse := by
  have hstart : range ((runeValues b).length + 1) = distances [] [] (runeValues b) := by
    rw [distances_nil, range_eq_range', length_nil]
  have hrows := foldl_editRow [] (runeValues a) (runeValues b)
  rw [length_nil, ← hstart, append_nil] at hrows
  rw [editDistance, hrows, getLastD_distances, append_nil]

/-! ## The candidates -/

def Env.apart (env : Env) (name c : Bytes) : Nat := editDistance (env.toLower name) (env.toLower c)

section Candidates
variable {env : Env} {name : Bytes} {candidates : List Bytes}

theorem closestFrom_fold (best : Bytes × Nat) (h : ∃ c ∈ candidates, env.equalFold c name) :
    closestFrom env name candidates best ∈ candidates ∧
      env.equalFold (closestFrom env name candidates best) name := by
  induction candidates generalizing best with
  | nil => simp at h
  | cons c candidates ih =>
    rw [closestFrom]
    split
    next hfold => exact ⟨mem_cons_self, hfold⟩
    next hfold =>
      have hrest := fun best => ih best (by simpa [hfold] using h)
      exact ⟨mem_cons_of_mem c (hrest _).1, (hrest _).2⟩

/-- The loop returns the best so far, or a candidate that is closer, and none is closer than it. -/
theorem closestFrom_least (best : Bytes × Nat) (h : ∀ c ∈ candidates, ¬ env.equalFold c name) :
    (closestFrom env name candidates best = best.1 ∧ ∀ c ∈ candidates, best.2 ≤ env.apart name c) ∨
      closestFrom env name candidates best ∈ candidates ∧
        env.apart name (closestFrom env name candidates best) < best.2 ∧
        ∀ c ∈ candidates, env.apart name (closestFrom env name candidates best) ≤ env.apart name c := by
  induction candidates generalizing best with
  | nil => exact .inl ⟨rfl, by simp⟩
  | cons c candidates ih =>
    rw [forall_mem_cons] at h
    have hnext : closestFrom env name (c :: candidates) best = closestFrom env name candidates
        (if env.apart name c < best.2 then (c, env.apart name c) else best) := if_neg h.1
    rw [hnext]
    split
    next hlt =>
      rcases ih (c, env.apart name c) h.2 with ⟨heq, hall⟩ | ⟨hmem, hcloser, hall⟩
      · rw [heq]
        exact .inr ⟨mem_cons_self, hlt, forall_mem_cons.mpr ⟨le_rfl, hall⟩⟩
      · exact .inr ⟨mem_cons_of_mem c hmem, hcloser.trans hlt,
          forall_mem_cons.mpr ⟨hcloser.le, hall⟩⟩
    next hlt =>
      have hfar := not_lt.mp hlt
      rcases ih best h.2 with ⟨heq, hall⟩ | ⟨hmem, hcloser, hall⟩
      · exact .inl ⟨heq, forall_mem_cons.mpr ⟨hfar, hall⟩⟩
      · exact .inr ⟨mem_cons_of_mem c hmem, hcloser,
          forall_mem_cons.mpr ⟨hcloser.le.trans hfar, hall⟩⟩

end Candidates

/-- **Suggestions are optimal**: the distance is the least number of edits between the code
points, and a candidate is suggested that is the name up to case, or else one of least distance
when that is at most two. -/
theorem suggestion_optimal (env : Env) :
    (∀ a b, IsLeast {n | Edits (runeValues a) (runeValues b) n} (editDistance a b)) ∧
    ∀ name candidates,
      let found := closestName env name candidates
      ((∃ c ∈ candidates, env.equalFold c name) → found ∈ candidates ∧ env.equalFold found name) ∧
      ((∀ c ∈ candidates, ¬ env.equalFold c name) →
        ((∃ c ∈ candidates, env.apart name c ≤ 2) →
          found ∈ candidates ∧ ∀ c ∈ candidates, env.apart name found ≤ env.apart name c) ∧
        ((∀ c ∈ candidates, 2 < env.apart name c) → found = [])) := by
  refine ⟨fun a b => editDistance_eq a b ▸ isLeast_distance _ _, fun name candidates => ?_⟩
  refine ⟨closestFrom_fold ([], 3), fun hfold => ?_⟩
  rcases closestFrom_least ([], 3) hfold with ⟨hnone, hfar⟩ | ⟨hmem, hclose, hleast⟩
  · exact ⟨fun ⟨c, hc, hle⟩ => absurd (hfar c hc) (by omega), fun _ => hnone⟩
  · exact ⟨fun _ => ⟨hmem, hleast⟩, fun hfar => absurd (hfar _ hmem) (by omega)⟩

end MockAgents.Config
