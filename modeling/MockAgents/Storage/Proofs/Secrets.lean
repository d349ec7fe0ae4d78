import MockAgents.Storage.Proofs.Sanitize
import Mathlib
/-!
# Secrets do not survive

An occurrence of a secret that a prefix guards keeps its guard through every loop, since the
value a mask takes away ends where no letter or digit follows.  At the end the loops would go
past every prefix, and they go past none that guards a secret.
-/

namespace MockAgents.Storage

open Lib Lib.Utf8 Lib.Strings List

variable {a b p q s t v value before after : Bytes} {Free : Bytes → Prop}

/-- Letters and digits, as many as a key has. -/
structure Secret (v : Bytes) : Prop where
  alnum : ∀ c ∈ v, isAlnum c = true
  length : minKeyDashValueLen ≤ v.length

theorem Secret.ne_nil (hv : Secret v) : v ≠ [] := by
  rintro rfl
  exact absurd hv.length (by decide)

theorem Secret.clear {w : Bytes} (hv : Secret v) (hw : w ≠ []) (h : w.any isAlnum = false) :
    Clear w v :=
  .of_disjoint hw hv.ne_nil fun c hc hcv => absurd (hv.alnum c hcv) (List.any_eq_false.mp h c hc)

/-- Every occurrence of a secret is in the run of letters and digits after a prefix, and the text
before the prefix is as it should be. -/
def Guarded (Free : Bytes → Prop) (q v s : Bytes) : Prop :=
  ∀ a b, s = a ++ (v ++ b) →
    ∃ a₀ r, a = a₀ ++ (q ++ r) ∧ (∀ c ∈ r, isAlnum c = true) ∧ Free a₀

/-- No letter or digit is right before the prefix. -/
def AtWord (before : Bytes) : Prop := before.getLast?.any isAlnum = false

theorem guarded_start (hq : q ∈ patterns) (hv : Secret v) (hword : AtWord before)
    (hfree : Free before) (hbefore : ¬ v <:+: before) (hafter : ¬ v <:+: after) :
    Guarded Free q v (before ++ (q ++ (v ++ after))) := by
  intro a b hocc
  obtain ⟨w, x, rfl, hx, hw⟩ : ∃ w x, q = w ++ [x] ∧ isAlnum x = false ∧ w.length < 16 := by
    simp only [patterns, mem_cons, not_mem_nil, or_false] at hq
    rcases hq with rfl | rfl | rfl
    · exact ⟨bytes "sk", 45, by decide, by decide, by decide⟩
    · exact ⟨bytes "key", 45, by decide, by decide, by decide⟩
    · exact ⟨bytes "Bearer", 32, by decide, by decide, by decide⟩
  have hshort : ∀ g h : Bytes, w ≠ g ++ (v ++ h) := by
    rintro g h rfl
    have := hv.length
    simp only [length_append, minKeyDashValueLen] at hw this
    omega
  have hclear : ∀ x, isAlnum x = false → Clear [x] v := fun x hx => hv.clear (by simp) (by simpa using hx)
  rw [append_assoc, ← append_assoc] at hocc
  rcases (hclear x hx).occurs hocc with ⟨g, hg, -⟩ | ⟨-, rfl, -⟩ | ⟨r, rfl, hr⟩
  · -- the secret ends before the prefix does
    rcases eq_nil_or_concat before with rfl | ⟨l, d, rfl⟩
    · exact absurd hg (hshort a g)
    · have hd : isAlnum d = false := by simpa [AtWord] using hword
      rw [concat_eq_append, append_assoc] at hg
      rcases (hclear d hd).occurs hg with ⟨g', rfl, -⟩ | ⟨-, rfl, -⟩ | ⟨g', -, hg'⟩
      · exact absurd ⟨a, g' ++ [d], by simp⟩ hbefore
      · exact absurd hv.length (by simp [minKeyDashValueLen])
      · exact absurd hg' (hshort g' g)
  · exact absurd hv.length (by simp [minKeyDashValueLen])
  · refine ⟨before, r, by simp, ?_, hfree⟩
    rcases append_eq_append_iff.mp hr with ⟨c, rfl, hafter'⟩ | ⟨c, rfl, -⟩
    · exact absurd ⟨c, b, by simp [hafter']⟩ hafter
    · exact fun x hx => hv.alnum x (mem_append_left c hx)

/-- A mask of the prefix `p` leaves a text as it should be before the guard `q`, and its value does
not end inside the guard. -/
structure Spares (Free : Bytes → Prop) (q p : Bytes) : Prop where
  mask : ∀ s value g : Bytes, (∀ c, g.head? = some c → isKeyChar c = false) →
    Free (s ++ (p ++ (value.take (valueLen p value) ++ g))) → Free (s ++ (p ++ (stars ++ g)))
  stop : ∀ (s value a₀ z : Bytes) (x : UInt8) (y : Bytes), ¬ Skips p s value → Free a₀ →
    s ++ (p ++ value.take (valueLen p value)) = a₀ ++ z → q = z ++ x :: y → isKeyChar x = true

theorem Guarded.mask (hfree : Spares Free q p) (hv : Secret v)
    (hkey : ¬ Skips p s value) (h : Guarded Free q v (s ++ (p ++ value))) :
    Guarded Free q v (s ++ (p ++ (stars ++ value.drop (valueLen p value)))) := by
  intro a b hocc
  rw [← append_assoc] at hocc
  rcases (hv.clear (by decide) (by decide : stars.any isAlnum = false)).occurs hocc with
    ⟨g, hg, -⟩ | ⟨-, rfl, -⟩ | ⟨a', rfl, ha'⟩
  · exact h a (g ++ value) (by rw [← append_assoc, hg, append_assoc, append_assoc])
  · exact absurd hv.length (by decide)
  · obtain ⟨a₀, r, hr, halnum, hfree₀⟩ := h (s ++ (p ++ value.take (valueLen p value)) ++ a') b (by
      simp only [append_assoc]
      rw [← ha', take_append_drop])
    have hstop : ∀ x, (a' ++ (v ++ b)).head? = some x → isKeyChar x = false := fun x hx =>
      (head_drop_valueLen p value (by rw [ha', hx])).1
    rcases append_eq_append_iff.mp hr with ⟨g, rfl, rfl⟩ | ⟨z, hz, hguard⟩
    · refine ⟨s ++ (p ++ (stars ++ g)), r, by simp, halnum, hfree.mask s value g ?_ (by simpa using hfree₀)⟩
      exact fun c hc => hstop c (by simp [hc])
    -- the text after the value goes on with what is left of the guard
    exfalso
    have halnum_key : ∀ x, isAlnum x = true → isKeyChar x ≠ false := fun x hx => by simp [isKeyChar, hx]
    rcases a' with _ | ⟨x, a'⟩
    · obtain ⟨x, v, rfl⟩ := exists_cons_of_ne_nil hv.ne_nil
      exact halnum_key x (hv.alnum x mem_cons_self) (hstop x rfl)
    · have hx := hstop x rfl
      rcases append_eq_append_iff.mp hguard with ⟨c, -, hc⟩ | ⟨_ | ⟨d, y⟩, hq, hc⟩
      · exact halnum_key x (halnum x (by simp [hc])) hx
      · obtain rfl : x :: a' = r := hc
        exact halnum_key x (halnum x mem_cons_self) hx
      · obtain ⟨rfl, -⟩ := cons.inj hc
        exact absurd (hfree.stop s value a₀ z x y hkey hfree₀ hz hq) (by simp [hx])

theorem Guarded.sanitizes (hfree : ∀ p ∈ patterns, Spares Free q p) (hv : Secret v)
    (h : Guarded Free q v s) (hs : Sanitizes s t) : Guarded Free q v t := by
  have hkeep : ∀ p ∈ patterns, ∀ {s t}, Scans p [] s t → Guarded Free q v s → Guarded Free q v t :=
    fun p hp _ _ hs h => hs.keeps (fun hkey h => h.mask (hfree p hp) hv hkey) h
  obtain ⟨a, b, hsk, hkey, hbearer⟩ := hs
  exact hkeep _ (by decide) hbearer (hkeep _ (by decide) hkey (hkeep _ (by decide) hsk h))

/-- No guarded secret is left in a settled text. -/
theorem Guarded.not_within (hq : q ∈ patterns) (hv : Secret v)
    (hfree : q ≠ bearer → ∀ s, Free s → AtWord s) (h : Guarded Free q v t) (ht : Settled q t) :
    ¬ v <:+: t := by
  rintro ⟨a, b, rfl⟩
  obtain ⟨a₀, r, rfl, halnum, hfree₀⟩ := h a b (append_assoc ..)
  have hskip := ht a₀ (r ++ (v ++ b)) (by simp)
  rw [skips_iff hq] at hskip
  have hrun : ∀ c ∈ r ++ v, isAlnum c = true := fun c hc =>
    (mem_append.mp hc).elim (halnum c) (hv.alnum c)
  rw [← append_assoc] at hskip
  rcases hskip with hmasked | ⟨hb, hlast | ⟨-, hshort⟩⟩
  · have hstar : 42 ∈ r ++ v := by
      obtain ⟨c, w, hw⟩ := exists_cons_of_ne_nil (append_ne_nil_of_right_ne_nil r hv.ne_nil)
      rw [hw] at hmasked ⊢
      have hstars : stars = [42, 42, 42] := rfl
      simp only [isMasked, hstars, cons_append, isPrefixOf, Bool.and_eq_true, beq_iff_eq] at hmasked
      exact hmasked.1.1 ▸ mem_cons_self
    exact absurd (hrun 42 hstar) (by decide)
  · exact absurd hlast (by rw [hfree hb a₀ hfree₀]; decide)
  · have hkey : ∀ c ∈ r ++ v, isKeyChar c = true := fun c hc => by simp [isKeyChar, hrun c hc]
    rw [takeWhile_append_of_pos hkey, length_append, length_append] at hshort
    have := hv.length
    simp only [minKeyDashValueLen] at this
    omega

/-! ## Keys -/

theorem spares_atWord (hq : q.all isKeyChar = true) (p : Bytes) : Spares AtWord q p where
  mask s value g _ h := by
    by_cases hg : g = []
    · subst hg
      simp only [AtWord, append_nil, ← append_assoc]
      rw [getLast?_append_of_ne_nil _ (by decide)]
      decide
    · simp only [AtWord, ← append_assoc] at h ⊢
      rwa [getLast?_append_of_ne_nil _ hg] at h ⊢
  stop s value a₀ z x y _ _ _ heq := all_eq_true.mp hq x (by simp [heq])

/-- **A key after its prefix does not survive**, whatever is around it. -/
theorem sanitizeBody_masks_key (hq : q = bytes "sk-" ∨ q = keyDash) (hword : AtWord before)
    (hv : Secret v) (hbefore : ¬ v <:+: before) (hafter : ¬ v <:+: after) :
    ¬ v <:+: sanitizeBody (before ++ q ++ v ++ after) := by
  have hs := sanitizeBody_sanitizes (before ++ (q ++ (v ++ after)))
  have hsettled := hs.settled
  simp only [append_assoc]
  have hguard : q ∈ patterns → q.all isKeyChar = true → Guarded AtWord q v _ := fun hq hkey =>
    (guarded_start hq hv hword hword hbefore hafter).sanitizes (fun p _ => spares_atWord hkey p) hv hs
  rcases hq with rfl | rfl
  · exact (hguard (by decide) (by decide)).not_within (by decide) hv (fun _ _ h => h) hsettled.1
  · exact (hguard (by decide) (by decide)).not_within (by decide) hv (fun _ _ h => h) hsettled.2.1

theorem sanitizeBody_masks_key_sample :
    ¬ bytes "abcdefgh12345678" <:+:
      sanitizeBody (bytes "id=" ++ bytes "sk-" ++ bytes "abcdefgh12345678" ++ bytes " ok") :=
  sanitizeBody_masks_key (.inl rfl) (rfl : AtWord (bytes "id=")) ⟨all_eq_true.mp (by decide), by decide⟩
    (by decide) (by decide)

/-! ## Tokens -/

def scheme : Bytes := bytes "Bearer"

/-- A prefix whose value would run on into the scheme word is one the loops go past. -/
def Spared (before : Bytes) : Prop :=
  ∀ p ∈ patterns, ∀ a w, before ++ scheme = a ++ (p ++ w) → valueLen p w = w.length → Skips p a w

def valueByte (p : Bytes) (c : UInt8) : Bool := if p = keyDash then isKeyChar c else !isDelimiter c

theorem take_valueLen (p value : Bytes) : value.take (valueLen p value) = value.takeWhile (valueByte p) := by
  have hlen : valueLen p value = (value.takeWhile (valueByte p)).length := by
    unfold valueLen valueByte
    split <;> rfl
  rw [hlen, ← prefix_iff_eq_take.mp ( takeWhile_prefix _)]

theorem valueLen_eq_length_iff : valueLen p value = value.length ↔ ∀ c ∈ value, valueByte p c = true := by
  have hlen : valueLen p value ≤ value.length := by
    unfold valueLen
    split <;> exact ( takeWhile_prefix _).length_le
  rw [← takeWhile_eq_self_iff, ← take_valueLen, take_eq_self_iff]
  exact ⟨fun h => h.ge, hlen.antisymm⟩

theorem isDelimiter_of_valueByte {c : UInt8} (h : valueByte p c = true) : isDelimiter c = false := by
  unfold valueByte at h
  split at h
  · by_contra hc
    simp only [isDelimiter, Bool.or_eq_true, decide_eq_true_eq, Bool.not_eq_false] at hc
    rcases hc with (rfl | rfl) | rfl <;> exact absurd h (by decide)
  · simpa using h

theorem eq_stars_of_isMasked (h : isMasked value = true) (hd : ∀ c ∈ value, isDelimiter c = false) :
    value = stars := by
  obtain ⟨hpre, hend⟩ := Bool.and_eq_true_iff.mp h
  obtain ⟨rest, rfl⟩ := isPrefixOf_iff_prefix.mp hpre
  rcases rest with _ | ⟨c, rest⟩
  · exact append_nil stars
  · have hc : isDelimiter c = true := hend
    rw [hd c (by simp)] at hc
    exact absurd hc (by decide)

theorem spares_spared (hp : p ∈ patterns) : Spares Spared bearer p where
  mask s value g hg h q hq a w hocc hreach := by
    have hbytes := valueLen_eq_length_iff.mp hreach
    obtain ⟨⟨c₀, c₁, c₂, q', hq', hc₀⟩, hclear, hne⟩ := pattern_facts q hq
    rcases hclear.occurs (s := s ++ p) (t := g ++ scheme) (by simpa using hocc) with
      ⟨d, hd, rfl⟩ | ⟨-, heq, -⟩ | ⟨b, rfl, hb⟩
    · -- the prefix stands before the mask, and its value ran on through the masked one
      have hkey : q ≠ keyDash := by
        rintro rfl
        exact absurd (hbytes 42 (by simp [show stars = [42, 42, 42] from rfl])) (by decide)
      have hend : ∀ c ∈ d ++ (value.take (valueLen p value) ++ (g ++ scheme)), isDelimiter c = false := by
        intro c hc
        simp only [mem_append] at hc
        rcases hc with hc | hc | hc | hc
        · exact isDelimiter_of_valueByte (hbytes c (by simp [hc]))
        · rw [take_valueLen] at hc
          exact isDelimiter_of_valueByte (mem_takeWhile_imp hc)
        · exact isDelimiter_of_valueByte (hbytes c (by simp [hc]))
        · exact isDelimiter_of_valueByte (hbytes c (by simp [hc]))
      have hskip := h q hq a (d ++ (value.take (valueLen p value) ++ (g ++ scheme))) (by
          simp only [← append_assoc] at hd ⊢
          rw [hd])
        (valueLen_eq_length_iff.mpr fun c hc => by simp [valueByte, hkey, hend c hc])
      rw [skips_iff hq] at hskip ⊢
      rcases hskip with hmasked | ⟨hb, hlast | ⟨heq, -⟩⟩
      · have := congrArg List.length (eq_stars_of_isMasked hmasked hend)
        simp [show stars.length = 3 from rfl, show scheme.length = 6 from rfl] at this
        omega
      · exact .inr ⟨hb, .inl hlast⟩
      · exact absurd heq hkey
    · exact absurd heq hne
    · have hb₀ : b ≠ [] := by
        rintro rfl
        rcases g with _ | ⟨c, g⟩
        · have hfree : ∀ q ∈ patterns, ¬ q <+: scheme := by decide
          exact hfree q hq ⟨w, hb.symm⟩
        · obtain rfl : c = c₀ := by simpa [hq'] using congrArg head? hb
          exact absurd (hg c rfl) (by simp [isKeyChar, hc₀])
      have hskip := h q hq (s ++ (p ++ (value.take (valueLen p value) ++ b))) w
        (by simp [hb]) hreach
      simp only [← append_assoc] at hskip ⊢
      exact hskip.mask_before hq hb₀
  stop s value a₀ z x y hkey h hz hq := by
    by_contra hx
    obtain rfl : z = scheme := by
      have hword : bearer = scheme ++ [32] := by decide
      have hkeys : scheme.all isKeyChar = true := by decide
      rcases append_eq_append_iff.mp (hword.symm.trans hq) with
        ⟨_ | ⟨d, c⟩, rfl, hc⟩ | ⟨_ | ⟨d, c⟩, hz, hc⟩
      · exact append_nil scheme
      · exact absurd (congrArg List.length hc) (by simp)
      · rw [hz, append_nil]
      · obtain ⟨rfl, -⟩ := cons.inj hc
        exact absurd (all_eq_true.mp hkeys x (by simp [hz])) hx
    refine hkey ?_
    have hbytes : ∀ c ∈ value.take (valueLen p value), valueByte p c = true := by
      rw [take_valueLen]
      exact fun c hc => mem_takeWhile_imp hc
    have hskip := h p hp s _ hz.symm (valueLen_eq_length_iff.mpr hbytes)
    rw [skips_iff hp] at hskip ⊢
    rcases hskip with hmasked | ⟨hb, hlast | ⟨rfl, hshort⟩⟩
    · rw [eq_stars_of_isMasked hmasked fun c hc => isDelimiter_of_valueByte (hbytes c hc)] at hz
      have hlast := congrArg getLast? hz
      rw [← append_assoc, getLast?_append_of_ne_nil _ (by decide),
        getLast?_append_of_ne_nil _ (by decide)] at hlast
      exact absurd hlast (by decide)
    · exact .inr ⟨hb, .inl hlast⟩
    · have hrun : value.take (valueLen keyDash value) = value.takeWhile isKeyChar := take_valueLen keyDash value
      rw [hrun, takeWhile_idem] at hshort
      exact .inr ⟨hb, .inr ⟨rfl, hshort⟩⟩

end MockAgents.Storage
