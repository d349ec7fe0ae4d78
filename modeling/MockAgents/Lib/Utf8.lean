import Mathlib.Data.List.Infix
/-!
# UTF-8 over byte lists

Go strings are byte lists that need not be valid UTF-8.  Ranging over one
decodes it rune by rune, and a byte that starts no valid encoding is consumed
alone.  `runes` is that decoding; `encode` is its inverse on scalar values.
The single-character codec is the one of Lean's own string library.
-/

namespace MockAgents.Lib

open List UInt8

/-- A Go string: an arbitrary sequence of bytes. -/
abbrev Bytes := List UInt8

namespace Utf8

def encode (cs : List Char) : Bytes := cs.flatMap String.utf8EncodeChar

def bytes (s : String) : Bytes := encode s.toList

/-- The scalar value whose encoding starts the byte list, if there is one. -/
def decodeRune (b : Bytes) : Option Char := b.toByteArray.utf8DecodeChar? 0

/-- One step of a range loop over a Go string. -/
inductive Rune where
  | char (c : Char)
  | bad (b : UInt8)
deriving DecidableEq, Repr

def Rune.bytes : Rune → Bytes
  | .char c => String.utf8EncodeChar c
  | .bad b => [b]

/-- The range loop over a Go string, with as much fuel as there are bytes. -/
def runesAux : Nat → Bytes → List Rune
  | 0, _ => []
  | _ + 1, [] => []
  | n + 1, b :: bs =>
    match decodeRune (b :: bs) with
    | some c => .char c :: runesAux n ((b :: bs).drop c.utf8Size)
    | none => .bad b :: runesAux n bs

def runes (b : Bytes) : List Rune := runesAux b.length b

def valid (b : Bytes) : Bool :=
  (runes b).all fun
    | .char _ => true
    | .bad _ => false

/-- The text with U+FFFD in place of every byte that is not UTF-8, as `encoding/json` writes
a string. -/
def coerce (b : Bytes) : Bytes :=
  encode ((runes b).map fun
    | .char c => c
    | .bad _ => Char.ofNat 0xFFFD)

/-! ## Encoding -/

@[simp] theorem encode_nil : encode [] = [] := rfl

@[simp] theorem encode_cons (c : Char) (cs : List Char) :
    encode (c :: cs) = String.utf8EncodeChar c ++ encode cs := rfl

@[simp] theorem encode_append (cs ds : List Char) : encode (cs ++ ds) = encode cs ++ encode ds := by
  simp [encode]
variable {c : Char}

theorem utf8EncodeChar_ascii (h : c.toNat < 128) : String.utf8EncodeChar c = [ofNat c.toNat] := by
  have hv : c.val.toNat ≤ 127 := Nat.le_of_lt_succ h
  unfold String.utf8EncodeChar
  simp only [hv, if_true]
  rfl
variable {b : UInt8}

theorem le_of_mem_utf8EncodeChar (h : 128 ≤ c.toNat)
    (hb : b ∈ String.utf8EncodeChar c) : 128 ≤ b.toNat := by
  have hv : ¬ c.val.toNat ≤ 127 := Nat.not_le_of_lt h
  unfold String.utf8EncodeChar at hb
  simp only [hv, if_false] at hb
  have hofNat : ∀ n, 128 ≤ n → n < 256 → 128 ≤ (ofNat n).toNat := by
    intro n hle hlt
    rw [toNat_ofNat']
    omega
  split at hb
  · simp only [mem_cons, not_mem_nil, or_false] at hb
    rcases hb with rfl | rfl <;> exact hofNat _ (by omega) (by omega)
  · split at hb
    · simp only [mem_cons, not_mem_nil, or_false] at hb
      rcases hb with rfl | rfl | rfl <;> exact hofNat _ (by omega) (by omega)
    · simp only [mem_cons, not_mem_nil, or_false] at hb
      rcases hb with rfl | rfl | rfl | rfl <;> exact hofNat _ (by omega) (by omega)

/-! ## One rune -/

theorem decodeRune_eq_some_iff {b : Bytes} :
    decodeRune b = some c ↔ ∃ t, b = String.utf8EncodeChar c ++ t := by
  constructor
  · intro h
    have heq := ByteArray.eq_of_utf8DecodeChar?_eq_some h
    refine ⟨(b.toByteArray.extract c.utf8Size b.toByteArray.size).data.toList, ?_⟩
    have hlist := congrArg (fun a : ByteArray => a.data.toList) heq
    simpa using hlist
  · rintro ⟨t, rfl⟩
    rw [decodeRune, toByteArray_append]
    exact ByteArray.utf8DecodeChar?_utf8EncodeChar_append

@[simp] theorem decodeRune_encode_append (c : Char) (t : Bytes) :
    decodeRune (String.utf8EncodeChar c ++ t) = some c :=
  decodeRune_eq_some_iff.mpr ⟨t, rfl⟩

/-- A byte that can only start an encoding, never continue one. -/
def Leads (b : UInt8) : Prop := b.IsUTF8FirstByte
variable {t : Bytes}

theorem encode_head_leads (c : Char) (h : String.utf8EncodeChar c = b :: t) : Leads b := by
  have hpos : 0 < (String.utf8EncodeChar c).length := by
    rw [h]
    simp
  have hfirst : (String.utf8EncodeChar c)[0] = b := by simp [h]
  rw [← hfirst]
  exact isUTF8FirstByte_getElem_zero_utf8EncodeChar

theorem utf8EncodeChar_ofByte (h : b < 128) : String.utf8EncodeChar (Char.ofNat b.toNat) = [b] := by
  have hall : ∀ n < 128, String.utf8EncodeChar (Char.ofNat n) = [ofNat n] := by
    decide
  simpa using hall b.toNat h

theorem leads_of_lt (h : b < 128) : Leads b :=
  encode_head_leads _ (utf8EncodeChar_ofByte h)

/-- Decoding does not look past a byte that leads: cutting there changes
neither the outcome nor the rune. -/
theorem decodeRune_append_leads {w : Bytes} (hw : w ≠ [])
    (hb : Leads b) : decodeRune (w ++ b :: t) = decodeRune w := by
  apply Option.ext
  intro c
  rw [decodeRune_eq_some_iff, decodeRune_eq_some_iff]
  constructor
  · rintro ⟨s, hs⟩
    rcases append_eq_append_iff.mp hs with ⟨u, hu, hbu⟩ | ⟨u, hu, _⟩
    · -- the encoding reaches past `w`, so it would continue with `b`
      cases u with
      | nil => exact ⟨[], by simpa using hu.symm⟩
      | cons x u =>
        exfalso
        have hx : x = b := by simpa using (congrArg head? hbu).symm
        subst hx
        have hlen : w.length < (String.utf8EncodeChar c).length := by
          rw [hu]
          simp
        have hget : (String.utf8EncodeChar c)[w.length] = x := by
          simp [hu]
        rw [Leads, ← hget, isUTF8FirstByte_getElem_utf8EncodeChar] at hb
        exact hw (length_eq_zero_iff.mp hb)
    · exact ⟨u, hu⟩
  · rintro ⟨s, rfl⟩
    exact ⟨s ++ b :: t, by simp⟩

/-! ## The range loop -/

theorem runesAux_bytes (n : Nat) (b : Bytes) (h : b.length ≤ n) :
    (runesAux n b).flatMap Rune.bytes = b := by
  induction n generalizing b with
  | zero => simp [runesAux, length_eq_zero_iff.mp (Nat.le_zero.mp h)]
  | succ n ih =>
    cases b with
    | nil => rfl
    | cons b bs =>
      rw [runesAux]
      cases hd : decodeRune (b :: bs) with
      | none =>
        have hrest := ih bs (by simpa using h)
        simp [Rune.bytes, hrest]
      | some c =>
        obtain ⟨t, ht⟩ := decodeRune_eq_some_iff.mp hd
        have hpos := c.utf8Size_pos
        have hlen : t.length ≤ n := by
          have := congrArg List.length ht
          simp only [length_append, String.length_utf8EncodeChar] at this
          omega
        have hdrop : (b :: bs).drop c.utf8Size = t := by
          rw [ht, ← String.length_utf8EncodeChar, drop_left]
        simp only [hdrop, flatMap_cons, Rune.bytes, ih t hlen]
        exact ht.symm

theorem runes_bytes (b : Bytes) : (runes b).flatMap Rune.bytes = b :=
  runesAux_bytes b.length b le_rfl

theorem runesAux_fuel (n m : Nat) (b : Bytes) (hn : b.length ≤ n) (hm : b.length ≤ m) :
    runesAux n b = runesAux m b := by
  induction n generalizing m b with
  | zero =>
    have hb : b = [] := length_eq_zero_iff.mp (Nat.le_zero.mp hn)
    subst hb
    cases m <;> rfl
  | succ n ih =>
    cases b with
    | nil => cases m <;> rfl
    | cons b bs =>
      cases m with
      | zero => simp at hm
      | succ m =>
        simp only [length_cons, Nat.add_le_add_iff_right] at hn hm
        rw [runesAux, runesAux]
        cases decodeRune (b :: bs) with
        | none => simp only [ih m bs hn hm]
        | some c =>
          have hpos := c.utf8Size_pos
          have hlen : ((b :: bs).drop c.utf8Size).length ≤ bs.length := by
            simp only [length_drop, length_cons]
            omega
          simp only [ih m _ (hlen.trans hn) (hlen.trans hm)]

theorem runes_nil : runes [] = [] := rfl

theorem runes_char (c : Char) (t : Bytes) :
    runes (String.utf8EncodeChar c ++ t) = .char c :: runes t := by
  obtain ⟨b, bs, hb⟩ : ∃ b bs, String.utf8EncodeChar c = b :: bs := by
    cases h : String.utf8EncodeChar c with
    | nil => exact absurd h String.utf8EncodeChar_ne_nil
    | cons b bs => exact ⟨b, bs, rfl⟩
  have hcons : String.utf8EncodeChar c ++ t = b :: (bs ++ t) := by rw [hb, cons_append]
  have hdrop : (b :: (bs ++ t)).drop c.utf8Size = t := by
    rw [← hcons, ← String.length_utf8EncodeChar, drop_left]
  have hdec : decodeRune (b :: (bs ++ t)) = some c := by
    rw [← hcons]
    exact decodeRune_encode_append c t
  rw [hcons, runes, length_cons, runesAux, hdec]
  simp only [hdrop]
  rw [runes, runesAux_fuel _ t.length t (by simp) le_rfl]

theorem runes_bad (b : UInt8) (bs : Bytes) (h : decodeRune (b :: bs) = none) :
    runes (b :: bs) = .bad b :: runes bs := by
  rw [runes, length_cons, runesAux, h, runes]

@[simp] theorem runes_encode (cs : List Char) : runes (encode cs) = cs.map .char := by
  induction cs with
  | nil => rfl
  | cons c cs ih => rw [encode_cons, runes_char, ih, map_cons]

/-- A string splits at every leading byte. -/
theorem runes_append_leads (w t : Bytes) (hb : Leads b) :
    runes (w ++ b :: t) = runes w ++ runes (b :: t) := by
  induction hn : w.length using Nat.strongRecOn generalizing w with
  | _ n ih =>
    cases w with
    | nil => rfl
    | cons x xs =>
      have hcut := decodeRune_append_leads (t := t) (cons_ne_nil x xs) hb
      cases hd : decodeRune (x :: xs) with
      | none =>
        rw [cons_append, runes_bad _ _ (by rw [← cons_append, hcut, hd]),
          runes_bad _ _ hd, ih xs.length (by simp [← hn]) xs rfl, cons_append]
      | some c =>
        obtain ⟨u, hu⟩ := decodeRune_eq_some_iff.mp hd
        have hlen : u.length < n := by
          have := congrArg List.length hu
          have hpos := c.utf8Size_pos
          simp only [length_append, String.length_utf8EncodeChar] at this
          omega
        rw [hu, append_assoc, runes_char, runes_char, ih u.length hlen u rfl, cons_append]

/-! ## Validity -/

theorem valid_encode (cs : List Char) : valid (encode cs) = true := by
  simp [valid]

/-- A valid string is the encoding of its scalar values. -/
theorem valid_iff (b : Bytes) : valid b = true ↔ ∃ cs, b = encode cs := by
  constructor
  · intro h
    have hall : ∀ rs : List Rune, (rs.all fun
        | .char _ => true
        | .bad _ => false) = true → ∃ cs, rs.flatMap Rune.bytes = encode cs := by
      intro rs
      induction rs with
      | nil => exact fun _ => ⟨[], rfl⟩
      | cons r rs ih =>
        intro hrs
        cases r with
        | bad b => simp at hrs
        | char c =>
          obtain ⟨cs, hcs⟩ := ih (by simpa using hrs)
          exact ⟨c :: cs, by simp [Rune.bytes, hcs]⟩
    obtain ⟨cs, hcs⟩ := hall (runes b) h
    exact ⟨cs, by rw [← hcs, runes_bytes]⟩
  · rintro ⟨cs, rfl⟩
    exact valid_encode cs

theorem coerce_eq_self_iff (b : Bytes) : coerce b = b ↔ valid b = true := by
  constructor
  · intro h
    exact (valid_iff b).mpr ⟨_, h.symm⟩
  · intro h
    obtain ⟨cs, rfl⟩ := (valid_iff b).mp h
    simp [coerce, Function.comp_def]

theorem coerce_ascii {b : Bytes} (h : ∀ x ∈ b, x < 128) : coerce b = b := by
  rw [coerce_eq_self_iff, valid_iff]
  refine ⟨b.map fun x => Char.ofNat x.toNat, ?_⟩
  induction b with
  | nil => rfl
  | cons x b ih =>
    rw [map_cons, encode_cons, utf8EncodeChar_ofByte (h x mem_cons_self),
      ← ih fun y hy => h y (mem_cons_of_mem x hy), singleton_append]

theorem encode_injective {cs ds : List Char} (h : encode cs = encode ds) : cs = ds := by
  have hr : (cs.map Rune.char) = ds.map Rune.char := by
    rw [← runes_encode, ← runes_encode, h]
  exact map_injective_iff.mpr (fun _ _ h => Rune.char.inj h) hr

end Utf8

end MockAgents.Lib
