import MockAgents.Lib.Json
/-!
# JSON texts as `encoding/json` writes them

Strings with the escapes of the encoder, and the compact form in which a `json.RawMessage` is
embedded.  Both keep a text on one line.
-/

namespace MockAgents.Lib.Json

open Utf8 Strconv List

/-- A rune as a `\u` escape. -/
def unicodeEscape (n : Nat) : Bytes := encode ('\\' :: 'u' :: hexPad 4 n)

/-- The characters an escape of two bytes is written for. -/
def shortEscapes : List (Char × Char) :=
  [('"', '"'), ('\\', '\\'), (Char.ofNat 8, 'b'), (Char.ofNat 12, 'f'), ('\n', 'n'), ('\r', 'r'), ('\t', 't')]

/-- The characters that must not stand in a script. -/
def scriptUnsafe (c : Char) : Bool := ['<', '>', '&', Char.ofNat 0x2028, Char.ofNat 0x2029].contains c

def jsonRune : Rune → Bytes
  | .bad _ => unicodeEscape 0xFFFD
  | .char c =>
    match shortEscapes.lookup c with
    | some letter => encode ['\\', letter]
    | none => if c.toNat < 0x20 || scriptUnsafe c then unicodeEscape c.toNat else encode [c]

/-- `appendString`. -/
def jsonString (b : Bytes) : Bytes := byte '"' :: (runes b).flatMap jsonRune ++ [byte '"']

/-- The rest of `U+2028` and `U+2029` after their first byte. -/
def separatorTails : List Bytes := [[0x80, 0xA8], [0x80, 0xA9]]

/-- `appendCompact` from a state of the scanner; `skip` bytes belong to an escape that has been
written. -/
def compactFrom (s : Scanner) (skip : Nat) : Bytes → Bytes
  | [] => []
  | c :: rest =>
    if 0 < skip then compactFrom (s.next c) (skip - 1) rest
    else if [byte '<', byte '>', byte '&'].contains c then
      unicodeEscape c.toNat ++ compactFrom (s.next c) 0 rest
    else if c = 0xE2 && separatorTails.contains (rest.take 2) then
      unicodeEscape (0x2000 + (rest.getD 1 0).toNat - 0x80) ++ compactFrom (s.next c) 2 rest
    else if Scanner.isSpace c && s.step != .inString then compactFrom (s.next c) 0 rest
    else c :: compactFrom (s.next c) 0 rest

/-- The text of a `json.RawMessage`, which has to be valid. -/
def compact (b : Bytes) : Option Bytes := if valid b then some (compactFrom Scanner.reset 0 b) else none

theorem compactFrom_kept {b : Bytes} (h : ∀ c ∈ b, c ∉ [byte '<', byte '>', byte '&', 0xE2] ∧ Scanner.isSpace c = false)
    (s : Scanner) : compactFrom s 0 b = b := by
  induction b generalizing s with
  | nil => rfl
  | cons c b ih =>
    obtain ⟨⟨hplain, hspace⟩, hrest⟩ := forall_mem_cons.mp h
    simp only [mem_cons, not_mem_nil, or_false, not_or] at hplain
    obtain ⟨hless, hgreater, hand, hfirst⟩ := hplain
    rw [compactFrom, if_neg (Nat.lt_irrefl 0), if_neg (by simp [hless, hgreater, hand]),
      if_neg (by simp [hfirst]), if_neg (by simp [hspace]), ih hrest]

/-! ## One line -/

theorem newline_not_mem_unicodeEscape (n : Nat) : 10 ∉ unicodeEscape n := by
  intro h
  obtain ⟨c, hc, hmem⟩ := mem_flatMap.mp h
  have hdigit : ∀ k, 10 ∉ String.utf8EncodeChar (hexDigit k) := by
    intro k
    by_cases hk : k < 16
    · revert k
      decide
    · have hnone : hexDigit k = '0' := by
        rw [hexDigit, getD_eq_getElem?_getD, getElem?_eq_none (Nat.le_of_not_lt hk), Option.getD_none]
      rw [hnone]
      decide
  simp only [hexPad, mem_cons, mem_append, not_mem_nil, or_false, false_or] at hc
  rcases hc with rfl | rfl | ((rfl | rfl) | rfl) | rfl
  · exact absurd hmem (by decide)
  · exact absurd hmem (by decide)
  all_goals exact hdigit _ hmem

theorem newline_not_mem_encode {c : Char} (h : c.toNat ≠ 10) : 10 ∉ encode [c] := by
  rw [encode, flatMap_singleton]
  intro hmem
  by_cases hlow : c.toNat < 128
  · rw [utf8EncodeChar_ascii hlow, mem_singleton] at hmem
    have hnat := congrArg UInt8.toNat hmem
    simp at hnat
    omega
  · have hle := le_of_mem_utf8EncodeChar (Nat.le_of_not_lt hlow) hmem
    exact absurd hle (by decide)

theorem newline_not_mem_shortEscape {c letter : Char} (h : shortEscapes.lookup c = some letter) :
    10 ∉ encode ['\\', letter] := by
  obtain ⟨before, after, hsplit, -⟩ := lookup_eq_some_iff.mp h
  have hmem : letter ∈ shortEscapes.map (·.2) := by
    rw [hsplit]
    simp
  simp only [shortEscapes, map_cons, map_nil, mem_cons, not_mem_nil, or_false] at hmem
  rcases hmem with rfl | rfl | rfl | rfl | rfl | rfl | rfl <;> decide

theorem newline_not_mem_jsonRune (r : Rune) : 10 ∉ jsonRune r := by
  cases r with
  | bad b => exact newline_not_mem_unicodeEscape _
  | char c =>
    rw [jsonRune]
    split
    next letter hshort => exact newline_not_mem_shortEscape hshort
    next hshort =>
      split
      · exact newline_not_mem_unicodeEscape _
      next hplain =>
        refine newline_not_mem_encode fun hten => hplain ?_
        rw [hten]
        rfl

theorem newline_not_mem_jsonString (b : Bytes) : 10 ∉ jsonString b := by
  simp only [jsonString, mem_cons, mem_append, mem_flatMap, not_mem_nil, or_false]
  rintro ((h | ⟨r, -, hr⟩) | h)
  · exact absurd h (by decide)
  · exact newline_not_mem_jsonRune r hr
  · exact absurd h (by decide)

/-- A newline is white space between tokens, and an error in a string. -/
theorem newline_not_mem_compactFrom {s : Scanner} {skip : Nat} {b : Bytes}
    (h : (b.foldl Scanner.next s).step ≠ .error) : 10 ∉ compactFrom s skip b := by
  induction b generalizing s skip with
  | nil => exact not_mem_nil
  | cons c b ih =>
    have hrest : ∀ k, 10 ∉ compactFrom (s.next c) k b := fun k => ih h
    rw [compactFrom]
    split
    · exact hrest _
    · split
      · exact fun hmem => (mem_append.mp hmem).elim (newline_not_mem_unicodeEscape _) (hrest 0)
      · split
        · exact fun hmem => (mem_append.mp hmem).elim (newline_not_mem_unicodeEscape _) (hrest 2)
        · split
          · exact hrest 0
          next hkept =>
            intro hmem
            rcases mem_cons.mp hmem with rfl | hlater
            · have hstring : s.step = .inString := by
                by_contra hne
                exact hkept (by simp [Scanner.isSpace, byte, hne])
              have hfail : s.next 10 = s.fail := by
                rw [Scanner.next, hstring]
                rfl
              rw [foldl_cons, hfail, Scanner.foldl_error rfl] at h
              exact h rfl
            · exact hrest 0 hlater

theorem newline_not_mem_compact {b text : Bytes} (h : compact b = some text) : 10 ∉ text := by
  unfold compact at h
  split at h
  next hvalid =>
    cases h
    refine newline_not_mem_compactFrom fun herror => ?_
    rw [valid, Scanner.eof, if_pos herror] at hvalid
    cases hvalid
  next => cases h

end MockAgents.Lib.Json
