import MockAgents.Lib.Json
/-!
# Standard base64

`base64.StdEncoding` with padding.  The decoder ignores carriage returns and line
feeds, and allows a padded quantum only at the end.
-/

namespace MockAgents.Lib.Base64

open Utf8 Json List Option

def alphabet : List Char :=
  "ABCDEFGHIJKLMNOPQRSTUVWXYZabcdefghijklmnopqrstuvwxyz0123456789+/".toList

def digit (n : Nat) : Char := alphabet.getD n 'A'

def value (c : UInt8) : Option Nat := alphabet.findIdx? fun d => byte d = c

def encodeToString : Bytes → List Char
  | [] => []
  | [a] => [digit (a.toNat / 4), digit (a.toNat % 4 * 16), '=', '=']
  | [a, b] =>
    [digit (a.toNat / 4), digit (a.toNat % 4 * 16 + b.toNat / 16), digit (b.toNat % 16 * 4), '=']
  | a :: b :: c :: rest =>
    digit (a.toNat / 4) :: digit (a.toNat % 4 * 16 + b.toNat / 16) ::
      digit (b.toNat % 16 * 4 + c.toNat / 64) :: digit (c.toNat % 64) :: encodeToString rest

/-- `base64.RawURLEncoding.EncodeToString`: no padding, and two letters of the alphabet
replaced by ones that are safe in a URL. -/
def rawURLEncodeToString (b : Bytes) : List Char :=
  ((encodeToString b).filter fun c => c != '=').map fun c =>
    if c = '+' then '-' else if c = '/' then '_' else c

def decodeQuanta : Bytes → Option Bytes
  | [] => some []
  | a :: b :: c :: d :: rest => do
      let x ← value a
      let y ← value b
      if c = byte '=' then
        if d = byte '=' && rest.isEmpty then some [UInt8.ofNat (x * 4 + y / 16)] else none
      else
        let z ← value c
        if d = byte '=' then
          if rest.isEmpty then
            some [UInt8.ofNat (x * 4 + y / 16), UInt8.ofNat (y % 16 * 16 + z / 4)]
          else none
        else
          let w ← value d
          let tail ← decodeQuanta rest
          some (UInt8.ofNat (x * 4 + y / 16) :: UInt8.ofNat (y % 16 * 16 + z / 4) ::
            UInt8.ofNat (z % 4 * 64 + w) :: tail)
  | _ => none

/-- `DecodeString`; `none` is the error result. -/
def decodeString (s : Bytes) : Option Bytes :=
  decodeQuanta (s.filter fun c => c != byte '\r' && c != byte '\n')

/-- What the alphabet guarantees about one digit. -/
theorem digit_spec : ∀ n < 64, value (byte (digit n)) = some n ∧ (digit n).toNat < 128 ∧
    0x20 < (digit n).toNat ∧ (digit n).toNat < 0x7F ∧ byte (digit n) ≠ byte '=' ∧
    byte (digit n) ≠ byte '\r' ∧ byte (digit n) ≠ byte '\n' := by
  decide

theorem encodeToString_ascii (b : Bytes) :
    ∀ c ∈ encodeToString b, 0x20 < c.toNat ∧ c.toNat < 0x7F ∧
      byte c ≠ byte '\r' ∧ byte c ≠ byte '\n' := by
  have hdigit : ∀ n < 64, 0x20 < (digit n).toNat ∧ (digit n).toNat < 0x7F ∧
      byte (digit n) ≠ byte '\r' ∧ byte (digit n) ≠ byte '\n' := by
    intro n hn
    obtain ⟨_, _, hlow, hhigh, _, hcr, hlf⟩ := digit_spec n hn
    exact ⟨hlow, hhigh, hcr, hlf⟩
  have hpad : 0x20 < '='.toNat ∧ '='.toNat < 0x7F ∧ byte '=' ≠ byte '\r' ∧
      byte '=' ≠ byte '\n' := by
    decide
  fun_induction encodeToString b with
  | case1 => simp
  | case2 a =>
    have ha := a.toNat_lt
    simp only [forall_mem_cons, not_mem_nil, false_implies, implies_true, and_true]
    exact ⟨hdigit _ (by omega), hdigit _ (by omega), hpad, hpad⟩
  | case3 a b =>
    have ha := a.toNat_lt
    have hb := b.toNat_lt
    simp only [forall_mem_cons, not_mem_nil, false_implies, implies_true, and_true]
    exact ⟨hdigit _ (by omega), hdigit _ (by omega), hdigit _ (by omega), hpad⟩
  | case4 a b c rest ih =>
    have ha := a.toNat_lt
    have hb := b.toNat_lt
    have hc := c.toNat_lt
    simp only [forall_mem_cons]
    exact ⟨hdigit _ (by omega), hdigit _ (by omega), hdigit _ (by omega), hdigit _ (by omega), ih⟩

theorem decodeQuanta_encodeToString (b : Bytes) :
    decodeQuanta ((encodeToString b).map byte) = some b := by
  have hvalue : ∀ n < 64, value (byte (digit n)) = some n := fun n hn => (digit_spec n hn).1
  have hpad : ∀ n < 64, byte (digit n) ≠ byte '=' := fun n hn => (digit_spec n hn).2.2.2.2.1
  fun_induction encodeToString b with
  | case1 => rfl
  | case2 a =>
    have ha := a.toNat_lt
    have hback : a.toNat / 4 * 4 + a.toNat % 4 * 16 / 16 = a.toNat := by omega
    simp only [map_cons, map_nil, decodeQuanta]
    rw [hvalue _ (by omega), hvalue _ (by omega)]
    simp only [bind_eq_bind, bind_some, hback, UInt8.ofNat_toNat, if_true,
      decide_true, isEmpty_nil, Bool.and_self]
  | case3 a b =>
    have ha := a.toNat_lt
    have hb := b.toNat_lt
    have hfst : a.toNat / 4 * 4 + (a.toNat % 4 * 16 + b.toNat / 16) / 16 = a.toNat := by omega
    have hsnd : (a.toNat % 4 * 16 + b.toNat / 16) % 16 * 16 + b.toNat % 16 * 4 / 4 =
        b.toNat := by
      omega
    simp only [map_cons, map_nil, decodeQuanta]
    rw [hvalue _ (by omega), hvalue _ (by omega), hvalue _ (by omega)]
    simp only [bind_eq_bind, bind_some, hpad (b.toNat % 16 * 4) (by omega), hfst,
      hsnd, UInt8.ofNat_toNat, if_true, if_false, isEmpty_nil]
  | case4 a b c rest ih =>
    have ha := a.toNat_lt
    have hb := b.toNat_lt
    have hc := c.toNat_lt
    have hfst : a.toNat / 4 * 4 + (a.toNat % 4 * 16 + b.toNat / 16) / 16 = a.toNat := by omega
    have hsnd : (a.toNat % 4 * 16 + b.toNat / 16) % 16 * 16 +
        (b.toNat % 16 * 4 + c.toNat / 64) / 4 = b.toNat := by
      omega
    have htrd : (b.toNat % 16 * 4 + c.toNat / 64) % 4 * 64 + c.toNat % 64 = c.toNat := by omega
    simp only [map_cons, decodeQuanta]
    rw [hvalue _ (by omega), hvalue _ (by omega), hvalue _ (by omega), hvalue _ (by omega), ih]
    simp only [bind_eq_bind, bind_some, hpad (b.toNat % 16 * 4 + c.toNat / 64) (by omega),
      hpad (c.toNat % 64) (by omega), hfst, hsnd, htrd, UInt8.ofNat_toNat, if_false]

theorem encode_ascii {cs : List Char} (h : ∀ c ∈ cs, c.toNat < 128) : encode cs = cs.map byte := by
  induction cs with
  | nil => rfl
  | cons c cs ih =>
    rw [encode_cons, utf8EncodeChar_ascii (h c mem_cons_self),
      ih fun x hx => h x (mem_cons_of_mem c hx)]
    rfl

theorem decodeString_encodeToString (b : Bytes) :
    decodeString (encode (encodeToString b)) = some b := by
  have hascii := encodeToString_ascii b
  rw [encode_ascii fun c hc => by have := hascii c hc; omega, decodeString, filter_eq_self.mpr,
    decodeQuanta_encodeToString]
  intro x hx
  obtain ⟨c, hc, rfl⟩ := mem_map.mp hx
  obtain ⟨_, _, hcr, hlf⟩ := hascii c hc
  simp [hcr, hlf]

end MockAgents.Lib.Base64
