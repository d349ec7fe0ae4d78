import Mathlib
/-!
# Maps of maps and least entries

Two-level maps that drop an inner map with its last entry, loops over the entries in
any order, and the index that keeps for every key the value of least rank.
-/

namespace MockAgents.Lib.Maps

open List AList

/-- The order of a loop over a map, which the language leaves open. -/
structure Shuffle where
  list : {α : Type} → List α → List α
  perm : ∀ {α : Type} (l : List α), (list l).Perm l

theorem Shuffle.mem_list (sh : Shuffle) {α : Type} {l : List α} {a : α} : a ∈ sh.list l ↔ a ∈ l :=
  (sh.perm l).mem_iff

def Shuffle.stored : Shuffle := ⟨fun l => l, fun l => .refl l⟩

section
variable {κ α : Type} [DecidableEq κ] {m : AList fun _ : κ => α} {k k' : κ} {a b : α}

theorem lookup_of_erase (h : (m.erase k).lookup k' = some a) : m.lookup k' = some a := by
  by_cases heq : k' = k
  · subst heq
    simp at h
  · rwa [lookup_erase_ne heq] at h

theorem lookup_of_insert (h : (m.insert k a).lookup k' = some b) :
    k' = k ∧ a = b ∨ k' ≠ k ∧ m.lookup k' = some b := by
  by_cases heq : k' = k
  · subst heq
    exact .inl ⟨rfl, by simpa using h⟩
  · exact .inr ⟨heq, lookup_insert_ne heq ▸ h⟩

end

/-! ## Two levels -/

section
variable {κ ν α : Type} [DecidableEq κ]

abbrev Table (κ ν α : Type) := AList fun _ : κ => AList fun _ : ν => α

namespace Table

def Trim (m : Table κ ν α) : Prop := ∀ k inner, m.lookup k = some inner → inner.keys ≠ []

theorem trim_empty : (∅ : Table κ ν α).Trim := by
  intro k inner h
  cases h

variable [DecidableEq ν]

def get (m : Table κ ν α) (k : κ) (n : ν) : Option α := (m.lookup k).bind (·.lookup n)

/-- Sets an entry, in a new inner map if there is none. -/
def put (m : Table κ ν α) (k : κ) (n : ν) (a : α) : Table κ ν α :=
  m.insert k (((m.lookup k).getD ∅).insert n a)

/-- Deletes an entry, and the inner map with its last one. -/
def delete (m : Table κ ν α) (k : κ) (n : ν) : Table κ ν α :=
  match m.lookup k with
  | none => m
  | some inner =>
    if (inner.erase n).keys = [] then m.erase k else m.insert k (inner.erase n)

@[simp] theorem get_empty (k : κ) (n : ν) : (∅ : Table κ ν α).get k n = none := rfl

variable {k : κ} {m : Table κ ν α}
variable {inner : AList fun _ : ν => α}

theorem get_of_lookup {m' : Table κ ν α} (h : m'.lookup k = m.lookup k) (n : ν) :
    m'.get k n = m.get k n := by
  rw [get, get, h]

theorem get_put (m : Table κ ν α) (k k' : κ) (n n' : ν) (a : α) :
    (m.put k n a).get k' n' = if k' = k ∧ n' = n then some a else m.get k' n' := by
  by_cases hk : k' = k
  · subst hk
    rw [get, put, lookup_insert, Option.bind_some]
    by_cases hn : n' = n
    · subst hn
      simp
    · rw [lookup_insert_ne hn, if_neg (by simp [hn]), get]
      cases m.lookup k' <;> simp
  · rw [if_neg (by simp [hk])]
    exact get_of_lookup (lookup_insert_ne hk) n'

theorem Trim.put (h : m.Trim) (k : κ) (n : ν) (a : α) : (m.put k n a).Trim := by
  intro k' inner hl
  rcases lookup_of_insert hl with ⟨-, rfl⟩ | ⟨-, hl⟩
  · simp
  · exact h k' inner hl

theorem lookup_eq_none_of_keys (h : inner.keys = []) (n : ν) : inner.lookup n = none := by
  rw [AList.lookup_eq_none, AList.mem_keys, h]
  simp

theorem get_delete (m : Table κ ν α) (k k' : κ) (n n' : ν) :
    (m.delete k n).get k' n' = if k' = k ∧ n' = n then none else m.get k' n' := by
  have herase : ∀ inner : AList fun _ : ν => α,
      (inner.erase n).lookup n' = if n' = n then none else inner.lookup n' := by
    intro inner
    by_cases hn : n' = n
    · subst hn
      simp
    · rw [lookup_erase_ne hn, if_neg hn]
  by_cases hk : k' = k
  · subst hk
    unfold delete
    split
    next hl =>
      simp [get, hl]
    next inner hl =>
      have hget : m.get k' n' = inner.lookup n' := by rw [get, hl, Option.bind_some]
      have hn := herase inner
      split
      next hempty =>
        rw [get, lookup_erase, hget]
        rw [lookup_eq_none_of_keys hempty] at hn
        simpa using hn
      · rw [get, lookup_insert, Option.bind_some, hn, hget]
        simp
  · rw [if_neg (by simp [hk])]
    unfold delete
    split
    · rfl
    · split
      · exact get_of_lookup (lookup_erase_ne hk) n'
      · exact get_of_lookup (lookup_insert_ne hk) n'

theorem Trim.delete (h : m.Trim) (k : κ) (n : ν) : (m.delete k n).Trim := by
  unfold Table.delete
  split
  · exact h
  · split
    · exact fun k' inner hl => h k' inner (lookup_of_erase hl)
    next hne =>
      intro k' inner hl
      rcases lookup_of_insert hl with ⟨-, rfl⟩ | ⟨-, hl⟩
      · exact hne
      · exact h k' inner hl

theorem Trim.get_isSome (h : m.Trim) (hl : m.lookup k = some inner) :
    ∃ n, (m.get k n).isSome = true := by
  obtain ⟨n, rest, hkeys⟩ := exists_cons_of_ne_nil (h k inner hl)
  refine ⟨n, ?_⟩
  rw [get, hl, Option.bind_some, AList.lookup_isSome, AList.mem_keys, hkeys]
  exact mem_cons_self

def flat (sh : Shuffle) (m : Table κ ν α) : List (κ × α) :=
  (sh.list m.entries).flatMap fun e => (sh.list e.2.entries).map fun f => (e.1, f.2)

theorem mem_flat {sh : Shuffle} {a : α} : (k, a) ∈ m.flat sh ↔ ∃ n, m.get k n = some a := by
  simp only [flat, mem_flatMap, mem_map, sh.mem_list, Prod.mk.injEq, get]
  constructor
  · rintro ⟨⟨k', inner⟩, he, ⟨n, a'⟩, hf, rfl, rfl⟩
    refine ⟨n, ?_⟩
    rw [mem_lookup_iff.mpr he]
    exact mem_lookup_iff.mpr hf
  · rintro ⟨n, h⟩
    obtain ⟨inner, hk, hn⟩ := Option.bind_eq_some_iff.mp h
    exact ⟨⟨k, inner⟩, mem_lookup_iff.mp hk, ⟨n, a⟩, mem_lookup_iff.mp hn, rfl, rfl⟩

end Table

end

/-! ## The least entry -/

section
variable {α β : Type} [LinearOrder β]

/-- The choice of an element of least rank among those with a property. -/
def Picks (rank : α → β) (P : α → Prop) : Option α → Prop
  | none => ∀ a, ¬ P a
  | some a => P a ∧ ∀ b, P b → rank a ≤ rank b

variable {rank : α → β} {P : α → Prop}
variable {o : Option α}

theorem Picks.congr {Q : α → Prop} (h : ∀ a, P a ↔ Q a) (hp : Picks rank P o) : Picks rank Q o := by
  obtain rfl : P = Q := funext fun a => propext (h a)
  exact hp

/-- The choice is determined where ranks are distinct. -/
theorem Picks.unique (hinj : ∀ a b, P a → P b → rank a = rank b → a = b) {o' : Option α}
    (h : Picks rank P o) (h' : Picks rank P o') : o = o' := by
  cases o with
  | none =>
    cases o' with
    | none => rfl
    | some b => exact absurd h'.1 (h b)
  | some a =>
    cases o' with
    | none => exact absurd h.1 (h' a)
    | some b => rw [hinj a b h.1 h'.1 (le_antisymm (h.2 b h'.1) (h'.2 a h.1))]

variable {κ : Type} [DecidableEq κ]
variable {k : κ} {idx : AList fun _ : κ => α}

/-- Enters a value unless one of no greater rank is there. -/
def keepLeast (rank : α → β) (idx : AList fun _ : κ => α) (k : κ) (a : α) : AList fun _ : κ => α :=
  match idx.lookup k with
  | none => idx.insert k a
  | some cur => if rank a < rank cur then idx.insert k a else idx

theorem lookup_keepLeast_ne (rank : α → β) (idx : AList fun _ : κ => α) {k' : κ} (a : α)
    (h : k' ≠ k) : (keepLeast rank idx k a).lookup k' = idx.lookup k' := by
  unfold keepLeast
  split
  · exact lookup_insert_ne h
  · split
    · exact lookup_insert_ne h
    · rfl

theorem picks_keepLeast (a : α) (h : Picks rank P (idx.lookup k)) :
    Picks rank (fun b => P b ∨ b = a) ((keepLeast rank idx k a).lookup k) := by
  unfold keepLeast
  split
  next hl =>
    rw [hl] at h
    rw [lookup_insert]
    refine ⟨.inr rfl, ?_⟩
    rintro b (hb | rfl)
    · exact absurd hb (h b)
    · exact le_rfl
  next cur hl =>
    rw [hl] at h
    split
    next hlt =>
      rw [lookup_insert]
      refine ⟨.inr rfl, ?_⟩
      rintro b (hb | rfl)
      · exact hlt.le.trans (h.2 b hb)
      · exact le_rfl
    next hge =>
      rw [hl]
      refine ⟨.inl h.1, ?_⟩
      rintro b (hb | rfl)
      · exact h.2 b hb
      · exact not_lt.mp hge

/-- A loop that keeps the least of the entries with a property. -/
theorem picks_foldl (rank : α → β) (p : α → Bool) (l : List (κ × α)) (k : κ)
    (h : Picks rank P (idx.lookup k)) :
    Picks rank (fun a => P a ∨ ((k, a) ∈ l ∧ p a = true))
      ((l.foldl (fun idx e => if p e.2 then keepLeast rank idx e.1 e.2 else idx) idx).lookup k) := by
  induction l generalizing idx P with
  | nil => exact h.congr (by simp)
  | cons e l ih =>
    obtain ⟨k', a⟩ := e
    rw [foldl_cons]
    by_cases hp : p a = true
    · rw [if_pos hp]
      by_cases hk : k = k'
      · subst hk
        refine (ih (picks_keepLeast a h)).congr fun b => ?_
        simp only [mem_cons, Prod.mk.injEq, true_and]
        constructor
        · rintro ((hb | rfl) | hb)
          · exact .inl hb
          · exact .inr ⟨.inl rfl, hp⟩
          · exact .inr ⟨.inr hb.1, hb.2⟩
        · rintro (hb | ⟨rfl | hb, hpb⟩)
          · exact .inl (.inl hb)
          · exact .inl (.inr rfl)
          · exact .inr ⟨hb, hpb⟩
      · rw [← lookup_keepLeast_ne rank idx a hk] at h
        refine (ih h).congr fun b => ?_
        simp [hk]
    · rw [if_neg hp]
      refine (ih h).congr fun b => ?_
      simp only [mem_cons, Prod.mk.injEq]
      constructor
      · rintro (hb | hb)
        · exact .inl hb
        · exact .inr ⟨.inr hb.1, hb.2⟩
      · rintro (hb | ⟨⟨_, rfl⟩ | hb, hpb⟩)
        · exact .inl hb
        · exact absurd hpb hp
        · exact .inr ⟨hb, hpb⟩

end

/-! ## Sorted listings -/

section
variable {α β : Type} [LinearOrder β]

/-- Sorting forgets the order of a loop where ranks are distinct. -/
theorem mergeSort_eq_of_perm (rank : α → β) {l l' : List α} (h : l.Perm l')
    (hinj : ∀ a ∈ l, ∀ b ∈ l, rank a = rank b → a = b) :
    l.mergeSort (fun a b => decide (rank a ≤ rank b)) =
      l'.mergeSort (fun a b => decide (rank a ≤ rank b)) := by
  have htrans : ∀ a b c : α, decide (rank a ≤ rank b) = true → decide (rank b ≤ rank c) = true →
      decide (rank a ≤ rank c) = true := by
    simp only [decide_eq_true_eq]
    exact fun a b c => le_trans
  have htotal : ∀ a b : α, (decide (rank a ≤ rank b) || decide (rank b ≤ rank a)) = true := by
    intro a b
    simpa using le_total (rank a) (rank b)
  refine Perm.eq_of_pairwise ?_ (pairwise_mergeSort htrans htotal l)
    (pairwise_mergeSort htrans htotal l') ?_
  · intro a b ha hb hab hba
    rw [decide_eq_true_eq] at hab hba
    exact hinj a (mem_mergeSort.mp ha) b (h.mem_iff.mpr (mem_mergeSort.mp hb))
      (le_antisymm hab hba)
  · exact ((mergeSort_perm l _).trans h).trans (mergeSort_perm l' _).symm

end

/-! ## Part of a map -/

section
variable {κ α : Type} [DecidableEq κ]

def keepIf (test : κ → α → Bool) (m : AList fun _ : κ => α) : AList fun _ : κ => α :=
  ⟨m.entries.filter fun e => test e.1 e.2, m.nodupKeys.sublist List.filter_sublist⟩

theorem lookup_keepIf (test : κ → α → Bool) (m : AList fun _ : κ => α) (k : κ) :
    (keepIf test m).lookup k = (m.lookup k).filter (test k) := by
  ext a
  rw [Option.filter_eq_some_iff, ← Option.mem_def, ← Option.mem_def, mem_lookup_iff, mem_lookup_iff]
  simp [keepIf]

def total (m : AList fun _ : κ => Nat) : Nat := (m.entries.map (·.2)).sum

theorem total_erase (m : AList fun _ : κ => Nat) (k : κ) :
    total (m.erase k) + (m.lookup k).getD 0 = total m := by
  obtain ⟨entries, hnodup⟩ := m
  change ((entries.kerase k).map (·.2)).sum + (entries.dlookup k).getD 0 = (entries.map (·.2)).sum
  clear hnodup
  induction entries with
  | nil => simp
  | cons e entries ih =>
    obtain ⟨k', a⟩ := e
    by_cases h : k = k'
    · subst h
      simp [kerase_cons_eq, Nat.add_comm]
    · rw [kerase_cons_ne h, dlookup_cons_ne _ _ h]
      simp only [map_cons, sum_cons]
      omega

theorem total_insert (m : AList fun _ : κ => Nat) (k : κ) (a : Nat) :
    total (m.insert k a) + (m.lookup k).getD 0 = total m + a := by
  have herase := total_erase m k
  have hinsert : total (m.insert k a) = a + total (m.erase k) := by
    rfl
  omega

variable {m : AList fun _ : κ => α}
variable {k : κ} {a : α}

/-- A cache of `f` holds nothing but values of `f`. -/
def Caches (f : κ → α) (m : AList fun _ : κ => α) : Prop := ∀ k a, m.lookup k = some a → a = f k

theorem Caches.insert {f : κ → α} (h : Caches f m) (k : κ) : Caches f (m.insert k (f k)) := by
  intro k' a ha
  rcases lookup_of_insert ha with ⟨rfl, rfl⟩ | ⟨-, ha⟩
  · rfl
  · exact h k' a ha

end

end MockAgents.Lib.Maps
