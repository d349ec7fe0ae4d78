import MockAgents.Lib.Utf8
/-!
# The `strings` package

The functions of Go's `strings` the models call, over byte strings.
-/

namespace MockAgents.Lib.Strings

open Utf8 List Option UInt8

def contains (s sub : Bytes) : Bool := decide (sub <:+: s)

def index : Bytes → Bytes → Option Nat
  | [], sub => if sub = [] then some 0 else none
  | b :: s, sub => if sub.isPrefixOf (b :: s) then some 0 else (index s sub).map (· + 1)

def splitN (sep : Bytes) : Nat → Bytes → List Bytes
  | 0, s => [s]
  | n + 1, s =>
    match index s sep with
    | none => [s]
    | some i => s.take i :: splitN sep n (s.drop (i + sep.length))

/-- `strings.Split`, with a separator that is not empty. -/
def split (s sep : Bytes) : List Bytes := splitN sep s.length s

def trimPrefix (s start : Bytes) : Bytes := if start.isPrefixOf s then s.drop start.length else s

def join (parts : List Bytes) (sep : Bytes) : Bytes := List.intercalate sep parts

/-- The loop of `strings.ReplaceAll`; the next `skip` bytes belong to a word that was replaced. -/
def replaceFrom (old new : Bytes) : Nat → Bytes → Bytes
  | _, [] => []
  | skip + 1, _ :: s => replaceFrom old new skip s
  | 0, c :: s =>
    if old.isPrefixOf (c :: s) then new ++ replaceFrom old new (old.length - 1) s
    else c :: replaceFrom old new 0 s

/-- `strings.ReplaceAll`, of a word that is not empty. -/
def replaceAll (s old new : Bytes) : Bytes := replaceFrom old new 0 s

def isSpace (c : Char) : Bool :=
  [0x09, 0x0A, 0x0B, 0x0C, 0x0D, 0x20, 0x85, 0xA0, 0x1680, 0x2028, 0x2029, 0x202F,
    0x205F, 0x3000].contains c.toNat || (0x2000 ≤ c.toNat && c.toNat ≤ 0x200A)

def isSpaceRune : Rune → Bool
  | .char c => isSpace c
  | .bad _ => false

def isBlank (s : Bytes) : Bool := (runes s).all isSpaceRune

def trimSpace (s : Bytes) : Bytes :=
  ((((runes s).dropWhile isSpaceRune).reverse.dropWhile isSpaceRune).reverse).flatMap Rune.bytes

/-- `strings.Fields`: the maximal runs of runes that are not white space. -/
def fields (s : Bytes) : List Bytes :=
  (((runes s).splitOnP isSpaceRune).filter (!·.isEmpty)).map (·.flatMap Rune.bytes)

/-! ## The first occurrence -/

theorem index_eq_none {s sub : Bytes} (h : index s sub = none) (a b : Bytes) : s ≠ a ++ (sub ++ b) := by
  induction s generalizing a with
  | nil =>
    rintro heq
    simp only [nil_eq_append_iff, append_eq_nil_iff] at heq
    simp [index, heq.2.1] at h
  | cons c s ih =>
    rw [index] at h
    split at h
    · cases h
    next hne =>
      rintro heq
      rcases a with _ | ⟨d, a⟩
      · exact hne ( isPrefixOf_iff_prefix.mpr ⟨b, heq.symm⟩)
      · exact ih (Option.map_eq_none_iff.mp h) a (cons.inj heq).2

theorem index_eq_some {s sub : Bytes} {i : Nat} (h : index s sub = some i) :
    (∃ b, s = s.take i ++ (sub ++ b)) ∧ i ≤ s.length ∧
      ∀ a b, s = a ++ (sub ++ b) → i ≤ a.length := by
  induction s generalizing i with
  | nil =>
    rw [index] at h
    split at h
    next hsub =>
      obtain rfl := some.inj h
      exact ⟨⟨[], by simp [hsub]⟩, le_rfl, fun a b _ => Nat.zero_le _⟩
    · cases h
  | cons c s ih =>
    rw [index] at h
    split at h
    next hsub =>
      obtain rfl := some.inj h
      obtain ⟨b, hb⟩ := isPrefixOf_iff_prefix.mp hsub
      exact ⟨⟨b, by simp [hb]⟩, Nat.zero_le _, fun a b _ => Nat.zero_le _⟩
    next hne =>
      obtain ⟨j, hj, rfl⟩ := Option.map_eq_some_iff.mp h
      obtain ⟨⟨b, hb⟩, hle, hmin⟩ := ih hj
      refine ⟨⟨b, ?_⟩, Nat.succ_le_succ hle, fun a b heq => ?_⟩
      · rw [take_succ_cons, cons_append, ← hb]
      · rcases a with _ | ⟨d, a⟩
        · exact absurd ( isPrefixOf_iff_prefix.mpr ⟨b, heq.symm⟩) hne
        · exact Nat.succ_le_succ (hmin a b (cons.inj heq).2)

/-! ## Replacement -/

theorem replaceFrom_length (old new x s : Bytes) :
    replaceFrom old new x.length (x ++ s) = replaceFrom old new 0 s := by
  induction x with
  | nil => rfl
  | cons c x ih => exact ih

theorem replaceAll_occurs {old : Bytes} (h : old ≠ []) (new s : Bytes) :
    replaceAll (old ++ s) old new = new ++ replaceAll s old new := by
  obtain ⟨c, x, rfl⟩ := exists_cons_of_ne_nil h
  have hocc : (c :: x).isPrefixOf (c :: (x ++ s)) = true := isPrefixOf_iff_prefix.mpr ⟨s, rfl⟩
  rw [replaceAll, cons_append, replaceFrom, if_pos hocc]
  exact congrArg (new ++ ·) (replaceFrom_length _ _ x s)

/-- A text in which the word does not begin stays. -/
theorem replaceAll_append {x s old : Bytes} (h : ∀ c y, c :: y <:+ x → ¬ old <+: c :: y ++ s) (new : Bytes) :
    replaceAll (x ++ s) old new = x ++ replaceAll s old new := by
  induction x with
  | nil => rfl
  | cons c x ih =>
    have hocc := h c x (suffix_refl _)
    rw [← isPrefixOf_iff_prefix, cons_append] at hocc
    rw [replaceAll, cons_append, replaceFrom, if_neg hocc]
    exact congrArg (c :: ·) (ih fun d y hy => h d y (hy.trans (suffix_cons c x)))

/-! ## Words that do not overlap -/

def Clash (x y : Bytes) : Prop := x <+: y ∨ y <+: x

instance (x y : Bytes) : Decidable (Clash x y) := inferInstanceAs (Decidable (_ ∨ _))

theorem clash_of_append_eq {x y s t : Bytes} (h : x ++ s = y ++ t) : Clash x y :=
  prefix_or_prefix_of_prefix ⟨s, h⟩ (prefix_append y t)

/-- Occurrences of the words share a byte only where they are the same. -/
structure Clear (p q : Bytes) : Prop where
  eq : Clash p q → p = q
  left : ∀ k < q.length, 0 < k → ¬ Clash (q.drop k) p
  right : ∀ k < p.length, 0 < k → ¬ Clash (p.drop k) q

theorem Clear.of_disjoint {p q : Bytes} (hp : p ≠ []) (hq : q ≠ []) (h : ∀ c ∈ p, c ∉ q) : Clear p q := by
  have hclash : ∀ {x y : Bytes}, x ≠ [] → y ≠ [] → Clash x y → ∃ c ∈ x, c ∈ y := by
    intro x y hx hy hxy
    obtain ⟨c, x, rfl⟩ := exists_cons_of_ne_nil hx
    obtain ⟨d, y, rfl⟩ := exists_cons_of_ne_nil hy
    rcases hxy with hxy | hxy
    · exact ⟨c, mem_cons_self, hxy.subset mem_cons_self⟩
    · exact ⟨d, hxy.subset mem_cons_self, mem_cons_self⟩
  have hdrop : ∀ {x : Bytes} {k}, k < x.length → x.drop k ≠ [] := fun hk => by simpa using hk
  refine ⟨fun hpq => ?_, fun k hk _ hpq => ?_, fun k hk _ hpq => ?_⟩
  · obtain ⟨c, hc, hc'⟩ := hclash hp hq hpq
    exact absurd hc' (h c hc)
  · obtain ⟨c, hc, hc'⟩ := hclash (hdrop hk) hp hpq
    exact h c hc' (mem_of_mem_drop hc)
  · obtain ⟨c, hc, hc'⟩ := hclash (hdrop hk) hq hpq
    exact h c (mem_of_mem_drop hc) hc'

theorem drop_append_clash {w x y s t : Bytes} (hw : w = x ++ y) (hx : x ≠ []) (hy : y ≠ [])
    (h : y ++ s = z ++ t) : ∃ k < w.length, 0 < k ∧ Clash (w.drop k) z := by
  subst hw
  have := length_pos_of_ne_nil hx
  have := length_pos_of_ne_nil hy
  refine ⟨x.length, by simp; omega, by omega, ?_⟩
  rw [drop_left]
  exact clash_of_append_eq h

/-- Where a word stands beside an occurrence of another. -/
theorem Clear.occurs {p q a s t v : Bytes} (hc : Clear p q) (h : s ++ (p ++ t) = a ++ (q ++ v)) :
    (∃ g, s = a ++ (q ++ g) ∧ v = g ++ (p ++ t)) ∨ (a = s ∧ p = q ∧ v = t) ∨
      ∃ b, a = s ++ (p ++ b) ∧ t = b ++ (q ++ v) := by
  have hsame : ∀ {t v : Bytes}, p ++ t = q ++ v → p = q ∧ v = t := by
    intro t v h
    obtain rfl := hc.eq (clash_of_append_eq h)
    exact ⟨rfl, (append_cancel_left h).symm⟩
  rcases append_eq_append_iff.mp h with ⟨c, rfl, h'⟩ | ⟨c, rfl, h'⟩
  · -- the word starts at the other or after it
    rcases append_eq_append_iff.mp h' with ⟨b, rfl, ht⟩ | ⟨z, hz, hq⟩
    · exact .inr (.inr ⟨b, rfl, ht⟩)
    · by_cases hc0 : c = []
      · subst hc0
        exact .inr (.inl ⟨append_nil s, hsame h'⟩)
      · by_cases hz0 : z = []
        · subst hz0
          exact .inr (.inr ⟨[], by simp [hz], hq.symm⟩)
        · obtain ⟨k, hk, hpos, hclash⟩ := drop_append_clash hz hc0 hz0 hq.symm
          exact absurd hclash (hc.right k hk hpos)
  · rcases append_eq_append_iff.mp h' with ⟨g, rfl, hv⟩ | ⟨z, hz, hp⟩
    · exact .inl ⟨g, rfl, hv⟩
    · by_cases hc0 : c = []
      · subst hc0
        exact .inr (.inl ⟨(append_nil a).symm, hsame h'.symm⟩)
      · by_cases hz0 : z = []
        · subst hz0
          exact .inl ⟨[], by simp [hz], hp.symm⟩
        · obtain ⟨k, hk, hpos, hclash⟩ := drop_append_clash hz hc0 hz0 hp.symm
          exact absurd hclash (hc.left k hk hpos)

/-! ## Trimming a text that begins with an ASCII character -/

theorem runes_ascii_cons {c : Char} (hc : c.toNat < 128) (t : Bytes) :
    runes (ofNat c.toNat :: t) = .char c :: runes t := by
  rw [← singleton_append, ← utf8EncodeChar_ascii hc, runes_char]

section Trim
variable {c : Char} (hc : c.toNat < 128) (hspace : isSpace c = false) (t : Bytes)
include hc hspace

/-- Only the end of the text is trimmed, and never all of it. -/
theorem trimSpace_prefix :
    trimSpace (ofNat c.toNat :: t) <+: ofNat c.toNat :: t ∧
      trimSpace (ofNat c.toNat :: t) ≠ [] := by
  have hrunes := runes_ascii_cons hc t
  have hstart : (runes (ofNat c.toNat :: t)).dropWhile isSpaceRune = runes (ofNat c.toNat :: t) := by
    rw [hrunes, dropWhile_cons_of_neg]
    rw [isSpaceRune, hspace]
    exact Bool.false_ne_true
  rw [trimSpace, hstart]
  constructor
  · obtain ⟨rest, hrest⟩ := reverse_prefix.mpr
      (dropWhile_suffix isSpaceRune (l := (runes (ofNat c.toNat :: t)).reverse))
    rw [reverse_reverse] at hrest
    refine ⟨rest.flatMap Rune.bytes, ?_⟩
    rw [← flatMap_append, hrest, runes_bytes]
  · intro hnil
    rw [flatMap_eq_nil_iff] at hnil
    have hkept : Rune.char c ∈ ((runes (ofNat c.toNat :: t)).reverse.dropWhile isSpaceRune).reverse := by
      rw [hrunes, reverse_cons, dropWhile_append, mem_reverse]
      split
      · rw [dropWhile_cons_of_neg]
        · exact mem_singleton_self _
        · rw [isSpaceRune, hspace]
          exact Bool.false_ne_true
      · exact mem_append_right _ (mem_singleton_self _)
    exact String.utf8EncodeChar_ne_nil (hnil _ hkept)

theorem trimSpace_eq_self {d : Char} (hd : d.toNat < 128) (hend : isSpace d = false) :
    trimSpace (ofNat c.toNat :: t ++ [ofNat d.toNat]) = ofNat c.toNat :: t ++ [ofNat d.toNat] := by
  have hlead : Leads (ofNat d.toNat) := by
    refine leads_of_lt ?_
    rw [lt_iff_toNat_lt]
    exact Nat.lt_of_le_of_lt (Nat.mod_le _ _) hd
  have hrunes : runes (ofNat c.toNat :: t ++ [ofNat d.toNat]) =
      .char c :: runes t ++ [.char d] := by
    rw [runes_append_leads _ _ hlead, runes_ascii_cons hc, runes_ascii_cons hd, runes_nil]
  have hfirst : ¬ isSpaceRune (.char c) = true := by
    rw [isSpaceRune, hspace]
    exact Bool.false_ne_true
  have hlast : ¬ isSpaceRune (.char d) = true := by
    rw [isSpaceRune, hend]
    exact Bool.false_ne_true
  rw [trimSpace, hrunes, cons_append, dropWhile_cons_of_neg hfirst, ← cons_append, reverse_append,
    reverse_singleton, singleton_append, dropWhile_cons_of_neg hlast, ← singleton_append,
    ← reverse_singleton, ← reverse_append, reverse_reverse, ← hrunes, runes_bytes]

end Trim

end MockAgents.Lib.Strings
