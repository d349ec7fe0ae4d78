import MockAgents.Storage.Query
/-!
# Queries by a prefix of the session

The escaped prefix matches what starts with it up to the case of ASCII letters, whatever wildcards
and escapes it has.
-/

namespace MockAgents.Storage

open InteractionFilter

variable {c : Char} {p pattern text : List Char}

theorem like_literal (h : ¬ (c = '\\' ∨ c = '%' ∨ c = '_')) :
    like (c :: pattern) = likeChar c (like pattern) := by
  rw [like.eq_def]
  split <;> simp_all

theorem like_escape :
    like (escapeLikePrefix p ++ ['%']) text = true ↔ p.map Char.toLower <+: text.map Char.toLower := by
  induction p generalizing text with
  | nil => simp [escapeLikePrefix, like, List.mem_tails]
  | cons c p ih =>
    have hcons : like (escapeLikePrefix (c :: p) ++ ['%']) = likeChar c (like (escapeLikePrefix p ++ ['%'])) := by
      rw [escapeLikePrefix, List.flatMap_cons]
      split
      next hspecial => rfl
      next hplain => exact like_literal hplain
    rw [hcons]
    cases text with
    | nil => simp [likeChar]
    | cons d text => simp [likeChar, ih]

def SameStart (pre id : String) : Prop :=
  pre.toList.map Char.toLower <+: id.toList.map Char.toLower

instance (pre id : String) : Decidable (SameStart pre id) :=
  inferInstanceAs (Decidable (_ <+: _))

theorem query_sessionPrefix (normalize : String → String) (f : InteractionFilter) (pre : String)
    (rows : List InteractionLog) :
    { f with sessionID := "", sessionPrefix := pre }.query normalize rows =
      { f with sessionID := "", sessionPrefix := "" }.query normalize
        (rows.filter fun row => SameStart pre row.sessionID) := by
  rw [query, query, List.filter_filter]
  refine congrArg _ (List.filter_congr fun row _ => ?_)
  have hlike : (pre = "" || like (escapeLikePrefix pre.toList ++ ['%']) row.sessionID.toList) =
      decide (SameStart pre row.sessionID) := by
    rw [Bool.eq_iff_iff, Bool.or_eq_true, like_escape, decide_eq_true_eq, decide_eq_true_eq]
    exact or_iff_right_of_imp fun h => by simp [h]
  simp only [selects, hlike]
  grind

/-- A query by a prefix returns only rows whose session starts with it exactly when every row on
the page of those that start with it up to ASCII case does. -/
theorem query_prefix_exact_iff (normalize : String → String) (f : InteractionFilter) (pre : String)
    (rows : List InteractionLog) :
    (∀ row ∈ { f with sessionID := "", sessionPrefix := pre }.query normalize rows,
      pre.toList <+: row.sessionID.toList) ↔
    ∀ row ∈ { f with sessionID := "", sessionPrefix := "" }.query normalize
      (rows.filter fun row => SameStart pre row.sessionID), pre.toList <+: row.sessionID.toList := by
  rw [query_sessionPrefix]

theorem query_other_case :
    ∃ row ∈ { sessionPrefix := "A" : InteractionFilter }.query id [⟨1, "", "", "", "abc"⟩],
      ¬ "A".toList <+: row.sessionID.toList := by
  decide +kernel

end MockAgents.Storage
