import MockAgents.Storage.Sanitize
/-!
# Masking is idempotent

When the loop of a prefix ends, it would go past every occurrence of the prefix in the text, and
the loops after it keep this so: a mask takes away a whole value, and no other prefix reaches
into it.
-/

namespace MockAgents.Storage

open Lib Lib.Utf8 Lib.Strings List

def patterns : List Bytes := [bytes "sk-", keyDash, bearer]

/-- The loop goes past an occurrence and leaves it. -/
def Skips (p before value : Bytes) : Prop :=
  isMasked value = true ∨ p ≠ bearer ∧ looksLikeKey before p value (valueLen p value) = false

/-- The loop would go past every occurrence. -/
def Settled (p s : Bytes) : Prop := ∀ a v, s = a ++ (p ++ v) → Skips p a v

/-- The iterations of the loop of one prefix from an offset on, and the text at its end. -/
inductive Scans (p : Bytes) : Bytes → Bytes → Bytes → Prop
  | stop (before : Bytes) {rest : Bytes} (hnone : ∀ a v, rest ≠ a ++ (p ++ v)) :
    Scans p before rest (before ++ rest)
  | masked {before h rest t : Bytes}
    (hfirst : ∀ a v, h ++ (p ++ (stars ++ rest)) = a ++ (p ++ v) → h.length ≤ a.length)
    (hmasked : isMasked (stars ++ rest) = true) (run : Scans p (before ++ h ++ p ++ stars) rest t) :
    Scans p before (h ++ (p ++ (stars ++ rest))) t
  | skip {before h value t : Bytes}
    (hfirst : ∀ a v, h ++ (p ++ value) = a ++ (p ++ v) → h.length ≤ a.length)
    (hskip : Skips p (before ++ h) value) (run : Scans p (before ++ h ++ p) value t) :
    Scans p before (h ++ (p ++ value)) t
  | mask {before h value t : Bytes}
    (hfirst : ∀ a v, h ++ (p ++ value) = a ++ (p ++ v) → h.length ≤ a.length)
    (hkey : ¬ Skips p (before ++ h) value)
    (run : Scans p (before ++ h ++ p ++ stars) (value.drop (valueLen p value)) t) :
    Scans p before (h ++ (p ++ value)) t

section
variable {a b c g p q r s t v x y before rest value : Bytes} {fuel : Nat}

/-- The loop ends: an iteration goes past a prefix. -/
theorem maskPattern_scans (hp : p ≠ []) (hfuel : rest.length ≤ fuel) :
    Scans p before rest (maskPattern p fuel before rest) := by
  have hpos := length_pos_of_ne_nil hp
  induction fuel generalizing before rest with
  | zero =>
    obtain rfl := length_eq_zero_iff.mp (Nat.le_zero.mp hfuel)
    exact .stop before (by simp [hp])
  | succ fuel ih =>
    rw [maskPattern]
    split
    · exact .stop before (index_eq_none ‹_›)
    next idx hidx =>
      obtain ⟨⟨value, hrest⟩, hle, hfirst⟩ := index_eq_some hidx
      generalize hh : rest.take idx = h at hrest ⊢
      obtain rfl : h.length = idx := by rw [← hh, length_take, Nat.min_eq_left hle]
      subst hrest
      have hvalue : (h ++ (p ++ value)).drop (h.length + p.length) = value := by
        rw [← append_assoc, ← length_append, drop_left]
      have hlen : value.length ≤ fuel := by
        simp only [length_append] at hfuel
        omega
      dsimp only
      rw [hvalue]
      split
      next hm =>
        obtain ⟨rest, rfl⟩ : stars <+: value :=
          isPrefixOf_iff_prefix.mp (Bool.and_eq_true_iff.mp hm).1
        have hdrop : (stars ++ rest).drop 3 = rest := rfl
        rw [length_append] at hlen
        exact .masked hfirst hm (ih (by omega))
      · split
        · exact .skip hfirst (.inr ‹_›) (ih hlen)
        next hm hkey =>
          refine .mask hfirst ?_ (ih ?_)
          · rintro (h | ⟨hb, h⟩)
            · exact hm h
            · exact hkey ⟨hb, h⟩
          · rw [length_drop]
            omega

theorem Scans.eq_of_settled (h : Scans p before rest t) (hs : Settled p (before ++ rest)) :
    t = before ++ rest := by
  induction h with
  | stop => rfl
  | masked _ _ _ ih => simpa using ih (by simpa using hs)
  | skip _ _ _ ih => simpa using ih (by simpa using hs)
  | mask _ hkey => exact absurd (hs _ _ (by simp)) hkey

/-! ## What a mask leaves of the other occurrences -/

theorem skips_iff (hp : p ∈ patterns) : Skips p a v ↔ isMasked v = true ∨ p ≠ bearer ∧
    (a.getLast?.any isAlnum = true ∨ p = keyDash ∧ (v.takeWhile isKeyChar).length < 16) := by
  have hsk : keyDash ≠ bytes "sk-" := by decide
  have hstart : keyDash.isPrefixOf (bytes "sk-" ++ v) = false := rfl
  simp only [patterns, mem_cons, not_mem_nil, or_false] at hp
  rcases hp with rfl | rfl | rfl
  · simp [Skips, looksLikeKey, hstart, hsk.symm]
  · have hall : (v.take (v.takeWhile isKeyChar).length).all isKeyChar = true := by
      rw [← prefix_iff_eq_take.mp ( takeWhile_prefix isKeyChar)]
      exact all_takeWhile
    simp [Skips, looksLikeKey, valueLen, hall, minKeyDashValueLen, or_iff_not_imp_left]
  · simp [Skips]

theorem head_drop_takeWhile (f : UInt8 → Bool) (s : Bytes) {c : UInt8}
    (h : (s.drop (s.takeWhile f).length).head? = some c) : f c = false := by
  have hdrop : s.drop (s.takeWhile f).length = s.dropWhile f := by
    nth_rewrite 2 [← takeWhile_append_dropWhile (p := f) (l := s)]
    exact drop_left
  have := head?_dropWhile_not f s
  rwa [← hdrop, h] at this

theorem head_drop_valueLen (p value : Bytes) {c : UInt8}
    (h : (value.drop (valueLen p value)).head? = some c) :
    isKeyChar c = false ∧ (p ≠ keyDash → isDelimiter c = true) := by
  unfold valueLen at h
  split at h
  · exact ⟨head_drop_takeWhile _ _ h, fun hp => absurd ‹_› hp⟩
  · have hend : isDelimiter c = true := by simpa using head_drop_takeWhile _ _ h
    refine ⟨?_, fun _ => hend⟩
    simp only [isDelimiter, Bool.or_eq_true, decide_eq_true_eq] at hend
    rcases hend with (rfl | rfl) | rfl <;> decide

theorem skips_masked (hp : p ∈ patterns) (s value : Bytes) :
    Skips p s (stars ++ value.drop (valueLen p value)) := by
  rw [skips_iff hp]
  by_cases hkey : p = keyDash
  · exact .inr ⟨by rw [hkey]; decide, .inr ⟨hkey, (by decide : 0 < 16)⟩⟩
  · left
    show (true && _) = true
    rw [Bool.true_and, Option.all_eq_true]
    exact fun c hc => (head_drop_valueLen p value hc).2 hkey

theorem pattern_facts : ∀ p ∈ patterns, (∃ c₀ c₁ c₂ p', p = c₀ :: c₁ :: c₂ :: p' ∧ isAlnum c₀ = true) ∧
    Clear stars p ∧ stars ≠ p := by
  simp only [patterns, forall_mem_cons, not_mem_nil, false_imp_iff, implies_true, and_true]
  refine ⟨⟨⟨_, _, _, _, rfl, by decide⟩, ⟨by decide, by decide, by decide⟩, by decide⟩,
    ⟨⟨_, _, _, _, rfl, by decide⟩, ⟨by decide, by decide, by decide⟩, by decide⟩,
    ⟨⟨_, _, _, _, rfl, by decide⟩, ⟨by decide, by decide, by decide⟩, by decide⟩⟩

theorem isMasked_append (hp : p ∈ patterns) (g x y : Bytes) :
    isMasked (g ++ (p ++ x)) = isMasked (g ++ (p ++ y)) := by
  obtain ⟨⟨c₀, c₁, c₂, p', rfl, hc⟩, -⟩ := pattern_facts p hp
  have hstar : (42 == c₀) = false := by
    rw [beq_eq_false_iff_ne]
    rintro rfl
    exact absurd hc (by decide)
  have hstars : stars = [42, 42, 42] := rfl
  rcases g with _ | ⟨d₀, _ | ⟨d₁, _ | ⟨d₂, _ | ⟨d₃, g⟩⟩⟩⟩ <;>
    simp [isMasked, hstars, isPrefixOf, hstar]

theorem Skips.mask_value (hp : p ∈ patterns) (hq : q ∈ patterns) (h : Skips q a (g ++ (p ++ value))) :
    Skips q a (g ++ (p ++ (stars ++ r))) := by
  rw [skips_iff hq] at h ⊢
  rw [isMasked_append hp g _ value]
  refine h.imp_right fun ⟨hb, h⟩ => ⟨hb, h.imp_right fun ⟨hkey, hrun⟩ => ⟨hkey, ?_⟩⟩
  have hstop : (stars ++ r).takeWhile isKeyChar = [] := rfl
  rw [← append_assoc, takeWhile_append] at hrun ⊢
  split <;> simp_all only [if_true, if_false, length_append, length_nil]
  omega

theorem Skips.mask_before (hq : q ∈ patterns) (hc : c ≠ []) (h : Skips q (x ++ c) v) :
    Skips q (y ++ c) v := by
  rw [skips_iff hq, getLast?_append_of_ne_nil _ hc] at h ⊢
  exact h

theorem stars_occurs (hq : q ∈ patterns) (h : stars ++ r = b ++ (q ++ v)) :
    ∃ c, b = stars ++ c ∧ r = c ++ (q ++ v) := by
  obtain ⟨⟨_, _, _, _, rfl, -⟩, hclear, hne⟩ := pattern_facts q hq
  rcases hclear.occurs (s := []) h with ⟨g, hg, -⟩ | ⟨-, heq, -⟩ | hc
  · simp at hg
  · exact absurd heq hne
  · exact hc

/-- A mask of one prefix keeps a text settled for another. -/
theorem settled_mask (hp : p ∈ patterns) (hq : q ∈ patterns) (hc : Clear p q) (hne : p ≠ q)
    (h : Settled q (s ++ (p ++ value))) :
    Settled q (s ++ (p ++ (stars ++ value.drop (valueLen p value)))) := by
  intro a v hocc
  rcases hc.occurs hocc with ⟨g, rfl, rfl⟩ | ⟨-, heq, -⟩ | ⟨b, rfl, hb⟩
  · exact (h a (g ++ (p ++ value)) (by simp)).mask_value hp hq
  · exact absurd heq hne
  · obtain ⟨c, rfl, hdrop⟩ := stars_occurs hq hb
    have hc : c ≠ [] := by
      rintro rfl
      obtain ⟨⟨c₀, _, _, _, rfl, halnum⟩, -⟩ := pattern_facts q hq
      have := (head_drop_valueLen p value (c := c₀) (by rw [hdrop]; rfl)).1
      simp [isKeyChar, halnum] at this
    have hskip := h (s ++ (p ++ (value.take (valueLen p value) ++ c))) v (by
      rw [append_assoc, append_assoc, append_assoc, ← hdrop, take_append_drop])
    simp only [← append_assoc] at hskip ⊢
    exact hskip.mask_before hq hc

/-- What every mask keeps, the loop keeps. -/
theorem Scans.keeps {J : Bytes → Prop} (hmask : ∀ {s value}, ¬ Skips p s value → J (s ++ (p ++ value)) →
      J (s ++ (p ++ (stars ++ value.drop (valueLen p value)))))
    (h : Scans p before rest t) (hs : J (before ++ rest)) : J t := by
  induction h with
  | stop => exact hs
  | masked _ _ _ ih => exact ih (by simpa using hs)
  | skip _ _ _ ih => exact ih (by simpa using hs)
  | mask _ hkey _ ih =>
    rw [← append_assoc] at hs
    exact ih (by simpa using hmask hkey hs)

theorem Scans.keeps_settled (hp : p ∈ patterns) (hq : q ∈ patterns) (hc : Clear p q) (hne : p ≠ q)
    (h : Scans p before rest t) : Settled q (before ++ rest) → Settled q t :=
  h.keeps fun _ => settled_mask hp hq hc hne

/-! ## The loop settles its prefix -/

/-- The occurrences that start before an offset are settled. -/
def SettledTo (p before rest : Bytes) : Prop :=
  ∀ a v, before ++ rest = a ++ (p ++ v) → a.length < before.length → Skips p a v

/-- The offset moves past the first occurrence, and past its stars. -/
theorem settledTo_advance {h w : Bytes} (hp : p ∈ patterns) (hc : Clear p p) (hw : w = [] ∨ w = stars)
    (hfirst : ∀ a v, h ++ (p ++ value) = a ++ (p ++ v) → h.length ≤ a.length)
    (hself : Skips p (before ++ h) (w ++ rest))
    (hold : ∀ a g, before ++ h = a ++ (p ++ g) → a.length < before.length →
      Skips p a (g ++ (p ++ (w ++ rest)))) : SettledTo p (before ++ h ++ p ++ w) rest := by
  intro a v hocc hlt
  rw [append_assoc, append_assoc] at hocc
  rcases hc.occurs hocc with ⟨g, hg, rfl⟩ | ⟨rfl, -, rfl⟩ | ⟨b, rfl, hb⟩
  · rcases Nat.lt_or_ge a.length before.length with hlt | hge
    · exact hold a g hg hlt
    · have hpre : before <+: a :=
        prefix_of_prefix_length_le (prefix_append before h) ⟨_, hg.symm⟩ hge
      obtain ⟨c, rfl⟩ := hpre
      rw [append_assoc] at hg
      obtain rfl := append_cancel_left hg
      obtain ⟨⟨_, _, _, _, rfl, -⟩, -⟩ := pattern_facts p hp
      have := hfirst c _ (by rw [append_assoc, append_assoc])
      simp only [length_append, length_cons] at this
      omega
  · exact hself
  · exfalso
    simp only [length_append] at hlt
    rcases hw with rfl | rfl
    · simp only [length_nil] at hlt
      omega
    · obtain ⟨c, rfl, -⟩ := stars_occurs hp hb
      rw [length_append] at hlt
      omega

theorem Scans.settles (hp : p ∈ patterns) (hc : Clear p p) (h : Scans p before rest t)
    (hs : SettledTo p before rest) : Settled p t := by
  induction h with
  | stop before hnone =>
    intro a v hocc
    rcases Nat.lt_or_ge a.length before.length with hlt | hge
    · exact hs a v hocc hlt
    · obtain ⟨c, rfl⟩ := prefix_of_prefix_length_le (prefix_append before _) ⟨_, hocc.symm⟩ hge
      rw [append_assoc] at hocc
      exact absurd (append_cancel_left hocc) (hnone c v)
  | masked hfirst hmasked _ ih =>
    exact ih (settledTo_advance hp hc (.inr rfl) hfirst (.inl hmasked) fun a g hg =>
      hs a _ (by rw [← append_assoc, hg, append_assoc, append_assoc]))
  | @skip before h value _ hfirst hskip _ ih =>
    have : SettledTo p (before ++ h ++ p ++ []) value := settledTo_advance hp hc (.inl rfl) hfirst hskip fun a g hg =>
      hs a _ (by rw [← append_assoc, hg, append_assoc, append_assoc]; rfl)
    rw [append_nil] at this
    exact ih this
  | mask hfirst hkey _ ih =>
    exact ih (settledTo_advance hp hc (.inr rfl) hfirst (skips_masked hp _ _) fun a g hg hlt =>
      (hs a _ (by rw [← append_assoc, hg, append_assoc, append_assoc]) hlt).mask_value hp hp)

end

/-! ## The three loops -/

def Sanitizes (s t : Bytes) : Prop :=
  ∃ a b, Scans (bytes "sk-") [] s a ∧ Scans keyDash [] a b ∧ Scans bearer [] b t

theorem sanitizeBody_sanitizes (s : Bytes) : Sanitizes s (sanitizeBody s) :=
  ⟨_, _, maskPattern_scans (by decide) le_rfl, maskPattern_scans (by decide) le_rfl,
    maskPattern_scans (by decide) le_rfl⟩

theorem Sanitizes.settled {s t : Bytes} (h : Sanitizes s t) :
    Settled (bytes "sk-") t ∧ Settled keyDash t ∧ Settled bearer t := by
  obtain ⟨a, b, hsk, hkey, hbearer⟩ := h
  have hstart : ∀ p s, SettledTo p [] s := fun p s a v _ hlt => absurd hlt (Nat.not_lt_zero _)
  have hclear : Clear (bytes "sk-") (bytes "sk-") ∧ Clear keyDash (bytes "sk-") ∧ Clear keyDash keyDash ∧
      Clear bearer (bytes "sk-") ∧ Clear bearer keyDash ∧ Clear bearer bearer := by
    refine ⟨?_, ?_, ?_, ?_, ?_, ?_⟩ <;> exact ⟨by decide, by decide, by decide⟩
  obtain ⟨hss, hks, hkk, hbs, hbk, hbb⟩ := hclear
  have hsk_a := hsk.settles (by decide) hss (hstart _ _)
  have hsk_b := hkey.keeps_settled (by decide) (by decide) hks (by decide) hsk_a
  have hkey_b := hkey.settles (by decide) hkk (hstart _ _)
  exact ⟨hbearer.keeps_settled (by decide) (by decide) hbs (by decide) hsk_b,
    hbearer.keeps_settled (by decide) (by decide) hbk (by decide) hkey_b,
    hbearer.settles (by decide) hbb (hstart _ _)⟩

theorem Sanitizes.eq_of_settled {s t : Bytes} (h : Sanitizes s t)
    (hs : Settled (bytes "sk-") s ∧ Settled keyDash s ∧ Settled bearer s) : t = s := by
  obtain ⟨a, b, hsk, hkey, hbearer⟩ := h
  obtain rfl : a = s := hsk.eq_of_settled hs.1
  obtain rfl : b = a := hkey.eq_of_settled hs.2.1
  exact hbearer.eq_of_settled hs.2.2

/-- Every loop of `SanitizeBody` comes to its end, and a second run changes nothing. -/
theorem sanitizeBody_idempotent (s : Bytes) :
    Sanitizes s (sanitizeBody s) ∧ sanitizeBody (sanitizeBody s) = sanitizeBody s :=
  ⟨sanitizeBody_sanitizes s,
    (sanitizeBody_sanitizes (sanitizeBody s)).eq_of_settled (sanitizeBody_sanitizes s).settled⟩

end MockAgents.Storage
