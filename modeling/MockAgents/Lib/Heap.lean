import Mathlib
/-!
# Nodes behind references, and their deep copy

A heap of labelled nodes whose children are scalars or references, as the maps and slices
of a decoded document are.  A value is tree shaped when reading it terminates; the number
of nodes is then depth enough.  A deep copy allocates every node it returns, so that
nothing that reaches only the copy touches what was there before.
-/

namespace MockAgents.Lib

open List Option Nat

inductive Value (S : Type) where
  | scalar (s : S)
  | ref (a : Nat)
deriving DecidableEq

structure Node (L S : Type) where
  label : L
  children : List (Value S)
deriving DecidableEq

inductive Tree (L S : Type) where
  | leaf (s : S)
  | node (label : L) (children : List (Tree L S))

/-- The nodes allocated so far; an address is a number of one of them. -/
abbrev Heap (L S : Type) := List (Node L S)

variable {L S : Type}

namespace Heap

/-! ## Trees in a heap -/

/-- The tree behind a value, if it is at most so deep. -/
def read : Nat → Heap L S → Value S → Option (Tree L S)
  | _, _, .scalar s => some (.leaf s)
  | 0, _, .ref _ => none
  | n + 1, h, .ref a =>
    match h[a]? with
    | none => none
    | some nd => (nd.children.mapM (read n h)).map (.node nd.label)

def tree (h : Heap L S) (v : Value S) : Option (Tree L S) := h.read h.length v

/-- What was allocated has not changed. -/
def Extends (h h' : Heap L S) : Prop := ∀ (a : Nat) nd, h[a]? = some nd → h'[a]? = some nd

theorem Extends.refl (h : Heap L S) : h.Extends h := fun _ _ ha => ha

theorem extends_append (h news : Heap L S) : h.Extends (h ++ news) := by
  intro a nd ha
  rw [getElem?_append_left (List.getElem?_eq_some_iff.mp ha).choose, ha]
variable {α β : Type}

theorem mapM_eq_some_of_imp {f g : α → Option β} {l : List α} {bs : List β}
    (hfg : ∀ a b, f a = some b → g a = some b) (h : l.mapM f = some bs) : l.mapM g = some bs := by
  induction l generalizing bs with
  | nil => exact h
  | cons a l ih =>
    simp only [mapM_cons, Option.bind_eq_bind, Option.bind_eq_some_iff, Option.pure_def,
      some.injEq] at h ⊢
    obtain ⟨b, hb, bs', hbs', rfl⟩ := h
    exact ⟨b, hfg a b hb, bs', ih hbs', rfl⟩

variable {t : Tree L S} {v : Value S} {a n k : Nat} {h : Heap L S}
variable {b m : Nat} {h' : Heap L S} {nd : Node L S}

/-- A deeper look into a larger heap reads the same tree. -/
theorem read_mono (hext : h.Extends h') (hnm : n ≤ m)
    (hread : h.read n v = some t) : h'.read m v = some t := by
  induction n generalizing m v t with
  | zero =>
    cases v with
    | scalar s => cases m <;> exact hread
    | ref a => cases hread
  | succ n ih =>
    obtain ⟨m, rfl⟩ : ∃ k, m = k + 1 := ⟨m - 1, by omega⟩
    cases v with
    | scalar s => exact hread
    | ref a =>
      rw [read] at hread ⊢
      cases ha : h[a]? with
      | none => rw [ha] at hread; cases hread
      | some nd =>
        rw [ha] at hread
        rw [hext a nd ha]
        obtain ⟨ts, hts, rfl⟩ := map_eq_some_iff.mp hread
        have hts' := mapM_eq_some_of_imp (fun v t => ih (m := m) (by omega)) hts
        simp [hts']

/-! ## How deep a tree can be -/

theorem mapM_isSome {f : α → Option β} {l : List α} :
    (l.mapM f).isSome = true ↔ ∀ a ∈ l, (f a).isSome = true := by
  induction l with
  | nil => simp
  | cons a l ih =>
    rw [forall_mem_cons, ← ih, mapM_cons]
    cases f a <;> cases l.mapM f <;> simp

theorem isSome_read_succ :
    (h.read (n + 1) (.ref a)).isSome = true ↔
      ∃ nd, h[a]? = some nd ∧ ∀ c ∈ nd.children, (h.read n c).isSome = true := by
  rw [read]
  cases h[a]? with
  | none => simp
  | some nd => simp [mapM_isSome]

/-- The nodes under which nothing is deeper than `n`. -/
def readable (n : Nat) (h : Heap L S) : Finset Nat :=
  (Finset.range h.length).filter fun a => (h.read n (.ref a)).isSome = true

theorem mem_readable : a ∈ h.readable n ↔ (h.read n (.ref a)).isSome = true := by
  rw [readable, Finset.mem_filter, Finset.mem_range, and_iff_right_iff_imp]
  intro hsome
  cases n with
  | zero => cases hsome
  | succ n =>
    obtain ⟨nd, hnd, -⟩ := isSome_read_succ.mp hsome
    exact (List.getElem?_eq_some_iff.mp hnd).choose

theorem readable_mono (h : Heap L S) (hnm : n ≤ m) : h.readable n ⊆ h.readable m := by
  intro a ha
  rw [mem_readable, isSome_iff_exists] at ha ⊢
  obtain ⟨t, ht⟩ := ha
  exact ⟨t, read_mono (Extends.refl h) hnm ht⟩

/-- Once looking deeper shows no new node, it never does. -/
theorem readable_stable (heq : h.readable n = h.readable (n + 1)) :
    h.readable (n + 1) = h.readable (n + 2) := by
  refine (h.readable_mono (le_succ _)).antisymm fun a ha => ?_
  obtain ⟨nd, hnd, hchildren⟩ := isSome_read_succ.mp (mem_readable.mp ha)
  refine mem_readable.mpr (isSome_read_succ.mpr ⟨nd, hnd, fun c hc => ?_⟩)
  cases c with
  | scalar s => cases n <;> rfl
  | ref b =>
    rw [← mem_readable, heq]
    exact mem_readable.mpr (hchildren _ hc)

theorem readable_subset (n : Nat) (h : Heap L S) : h.readable n ⊆ h.readable h.length := by
  have hcard : ∀ m, (h.readable m).card ≤ h.length := fun m =>
    (Finset.card_filter_le _ _).trans (Finset.card_range _).le
  have hmono : Monotone fun m => (h.readable m).card := fun i j hij =>
    Finset.card_le_card (h.readable_mono hij)
  have hstable : ∀ m, (h.readable m).card = (h.readable (m + 1)).card →
      (h.readable (m + 1)).card = (h.readable (m + 2)).card := by
    intro m hm
    rw [readable_stable (Finset.eq_of_subset_of_card_le (h.readable_mono (le_succ m)) hm.ge)]
  rcases le_total n h.length with hle | hle
  · exact h.readable_mono hle
  · have hsame := stabilises_of_monotone hmono hcard hstable hle
    exact (Finset.eq_of_subset_of_card_le (h.readable_mono hle) hsame.le).ge

/-- A tree is no deeper than there are nodes. -/
theorem tree_of_read (hread : h.read n v = some t) : h.tree v = some t := by
  cases v with
  | scalar s =>
    cases n <;> cases h <;> exact hread
  | ref a =>
    have hsome : a ∈ h.readable n := mem_readable.mpr (by rw [hread]; rfl)
    obtain ⟨t', ht'⟩ := isSome_iff_exists.mp (mem_readable.mp (readable_subset n h hsome))
    have hmax := read_mono (Extends.refl h) (le_max_left n h.length) hread
    rw [read_mono (Extends.refl h) (le_max_right n h.length) ht'] at hmax
    rw [tree, ht', hmax]

theorem tree_extends (hext : h.Extends h') (ht : h.tree v = some t) : h'.tree v = some t :=
  tree_of_read (read_mono hext le_rfl ht)

/-! ## Copies -/

/-- The loop over the children, each in the heap the one before left. -/
def copyAll (f : Heap L S → Value S → Option (Value S × Heap L S)) :
    List (Value S) → Heap L S → Option (List (Value S) × Heap L S)
  | [], h => some ([], h)
  | v :: vs, h =>
    match f h v with
    | none => none
    | some (v', h₁) =>
      match copyAll f vs h₁ with
      | none => none
      | some (vs', h₂) => some (v' :: vs', h₂)

/-- A deep copy, if the value is at most so deep.  A node is allocated once its children
are copied. -/
def copy : Nat → Heap L S → Value S → Option (Value S × Heap L S)
  | _, h, .scalar s => some (.scalar s, h)
  | 0, _, .ref _ => none
  | n + 1, h, .ref a =>
    match h[a]? with
    | none => none
    | some nd =>
      match copyAll (copy n) nd.children h with
      | none => none
      | some (vs, h₁) => some (.ref h₁.length, h₁ ++ [⟨nd.label, vs⟩])

/-- A scalar, or a reference to a node from `k` on. -/
def Above (k : Nat) : Value S → Prop
  | .scalar _ => True
  | .ref a => k ≤ a

/-- The nodes from `k` on lead only to nodes from `k` on. -/
def Sealed (k : Nat) (h : Heap L S) : Prop :=
  ∀ (a : Nat) nd, k ≤ a → h[a]? = some nd → ∀ c ∈ nd.children, Above k c

theorem sealed_length (h : Heap L S) : h.Sealed h.length := by
  intro a nd ha hnd
  have := (List.getElem?_eq_some_iff.mp hnd).choose
  omega

theorem Sealed.append (hs : h.Sealed k) (hnd : ∀ c ∈ nd.children, Above k c) :
    Heap.Sealed k (h ++ [nd]) := by
  intro a nd' ha hnd'
  rw [getElem?_append] at hnd'
  split at hnd'
  · exact hs a nd' ha hnd'
  · rw [getElem?_singleton] at hnd'
    split at hnd'
    · cases hnd'
      exact hnd
    · cases hnd'

/-- What a copy of `v` is: allocated after `h`, sealed from `k` on, and the same tree. -/
structure Copied (k n : Nat) (h h' : Heap L S) (v' : Value S) (t : Tree L S) : Prop where
  grows : ∃ news, h' = h ++ news
  isSealed : h'.Sealed k
  above : Above k v'
  read : h'.read n v' = some t

theorem copyAll_spec
    (ih : ∀ {h : Heap L S} {v : Value S} {t : Tree L S}, h.Sealed k → k ≤ h.length →
      h.read n v = some t → ∃ v' h', h.copy n v = some (v', h') ∧ Copied k n h h' v' t)
    {vs : List (Value S)} {ts : List (Tree L S)} (hs : h.Sealed k) (hk : k ≤ h.length)
    (hread : vs.mapM (h.read n) = some ts) :
    ∃ vs' h', copyAll (copy n) vs h = some (vs', h') ∧ (∃ news, h' = h ++ news) ∧ h'.Sealed k ∧
      (∀ c ∈ vs', Above k c) ∧ vs'.mapM (h'.read n) = some ts := by
  induction vs generalizing h ts with
  | nil => exact ⟨[], h, rfl, ⟨[], by simp⟩, hs, by simp, hread⟩
  | cons v vs ihvs =>
    simp only [mapM_cons, Option.bind_eq_bind, Option.bind_eq_some_iff, Option.pure_def,
      some.injEq] at hread
    obtain ⟨t, ht, ts', hts', rfl⟩ := hread
    obtain ⟨v', h₁, hcopy, ⟨news, rfl⟩, hs₁, habove, hread₁⟩ := ih hs hk ht
    have hext := extends_append h news
    obtain ⟨vs', h₂, hcopies, ⟨news', rfl⟩, hs₂, haboves, hreads⟩ :=
      ihvs hs₁ (by rw [length_append]; omega)
        (mapM_eq_some_of_imp (fun v t => read_mono hext (le_refl n)) hts')
    refine ⟨v' :: vs', _, by simp only [copyAll, hcopy, hcopies], ⟨news ++ news', by simp⟩, hs₂,
      forall_mem_cons.mpr ⟨habove, haboves⟩, ?_⟩
    have hread₂ := read_mono (extends_append (h ++ news) news') (le_refl n) hread₁
    simp only [mapM_cons, hread₂, hreads, Option.bind_eq_bind, bind_some, Option.pure_def]

theorem copy_spec (hs : h.Sealed k) (hk : k ≤ h.length) (hread : h.read n v = some t) :
    ∃ v' h', h.copy n v = some (v', h') ∧ Copied k n h h' v' t := by
  induction n generalizing h v t with
  | zero =>
    cases v with
    | scalar s => exact ⟨.scalar s, h, rfl, ⟨[], by simp⟩, hs, trivial, hread⟩
    | ref a => cases hread
  | succ n ih =>
    cases v with
    | scalar s => exact ⟨.scalar s, h, rfl, ⟨[], by simp⟩, hs, trivial, hread⟩
    | ref a =>
      rw [read] at hread
      cases ha : h[a]? with
      | none => rw [ha] at hread; cases hread
      | some nd =>
        rw [ha] at hread
        obtain ⟨ts, hts, rfl⟩ := map_eq_some_iff.mp hread
        obtain ⟨vs, h₁, hcopies, ⟨news, rfl⟩, hs₁, haboves, hreads⟩ :=
          copyAll_spec (fun hs hk hread => ih hs hk hread) hs hk hts
        refine ⟨.ref (h ++ news).length, (h ++ news) ++ [⟨nd.label, vs⟩],
          by simp only [copy, ha, hcopies], ⟨news ++ [⟨nd.label, vs⟩], by simp⟩,
          hs₁.append haboves, by simp [Above]; omega, ?_⟩
        have hreads' := mapM_eq_some_of_imp
          (fun v t => read_mono (extends_append (h ++ news) [⟨nd.label, vs⟩]) (le_refl n))
          hreads
        rw [read, getElem?_concat_length]
        simp only [hreads', map_some]

/-! ## What a reference leads to -/

inductive Reaches (h : Heap L S) (a : Nat) : Nat → Prop where
  | refl : Reaches h a a
  | step {b c : Nat} {nd : Node L S} (before : Reaches h a b) (node : h[b]? = some nd)
      (child : .ref c ∈ nd.children) : Reaches h a c

theorem Reaches.above (hr : h.Reaches a b) (hs : h.Sealed k) (ha : k ≤ a) : k ≤ b := by
  induction hr with
  | refl => exact ha
  | step _ node child ih => exact hs _ _ ih node _ child

theorem Reaches.eq_of_no_children (hr : h.Reaches a b)
    (ha : h[a]? = some nd) (hnd : nd.children = []) : b = a := by
  induction hr with
  | refl => rfl
  | step _ node child ih =>
    subst ih
    obtain rfl := some.inj (ha.symm.trans node)
    simp [hnd] at child

end Heap

end MockAgents.Lib
