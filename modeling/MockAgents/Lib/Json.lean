import MockAgents.Lib.Strconv
/-!
# The scanner of `encoding/json`

`json.Valid` runs a byte-driven state machine whose only memory is the state
function and a stack of open containers; every state function of the Go scanner
is a constructor of `Step`.  `unmarshalString` is `json.Unmarshal` into a Go
string: the same check, then `unquoteBytes` on the literal.
-/

namespace MockAgents.Lib.Json

open Utf8 List

def byte (c : Char) : UInt8 := UInt8.ofNat c.toNat

inductive ParseState where
  | objectKey
  | objectValue
  | arrayValue
deriving DecidableEq, Repr

inductive Step where
  | beginValueOrEmpty
  | beginValue
  | beginStringOrEmpty
  | beginString
  | endValue
  | endTop
  | inString
  | inStringEsc
  | inStringEscU
  | inStringEscU1
  | inStringEscU12
  | inStringEscU123
  | neg
  | one
  | zero
  | dot
  | dot0
  | exp
  | expSign
  | exp0
  | t
  | tr
  | tru
  | f
  | fa
  | fal
  | fals
  | n
  | nu
  | nul
  | error
deriving DecidableEq, Repr

/-- The scanner; the innermost open container is the head of `parseState`. -/
structure Scanner where
  step : Step
  endTop : Bool
  parseState : List ParseState
deriving DecidableEq, Repr

namespace Scanner

def reset : Scanner := ⟨.beginValue, false, []⟩

def goto (s : Scanner) (step : Step) : Scanner := { s with step := step }

def fail (s : Scanner) : Scanner := s.goto .error

def maxNestingDepth : Nat := 10000

def isSpace (c : UInt8) : Bool :=
  c = byte ' ' || c = byte '\t' || c = byte '\r' || c = byte '\n'

def isDigit (c : UInt8) : Bool := byte '0' ≤ c && c ≤ byte '9'

def isHex (c : UInt8) : Bool :=
  isDigit c || (byte 'a' ≤ c && c ≤ byte 'f') || (byte 'A' ≤ c && c ≤ byte 'F')

def pushParseState (s : Scanner) (new : ParseState) (success : Step) : Scanner :=
  if s.parseState.length + 1 ≤ maxNestingDepth then
    { s with step := success, parseState := new :: s.parseState }
  else s.fail

def popParseState (s : Scanner) : Scanner :=
  let rest := s.parseState.tail
  if rest.isEmpty then { step := .endTop, endTop := true, parseState := rest }
  else { s with step := .endValue, parseState := rest }

def stateEndTop (s : Scanner) (c : UInt8) : Scanner :=
  if isSpace c then s else s.fail

def stateEndValue (s : Scanner) (c : UInt8) : Scanner :=
  match s.parseState with
  | [] => stateEndTop { s with step := .endTop, endTop := true } c
  | ps :: rest =>
    if isSpace c then s.goto .endValue
    else
      match ps with
      | .objectKey =>
        if c = byte ':' then
          { s with step := .beginValue, parseState := .objectValue :: rest }
        else s.fail
      | .objectValue =>
        if c = byte ',' then
          { s with step := .beginString, parseState := .objectKey :: rest }
        else if c = byte '}' then s.popParseState
        else s.fail
      | .arrayValue =>
        if c = byte ',' then s.goto .beginValue
        else if c = byte ']' then s.popParseState
        else s.fail

def stateBeginValue (s : Scanner) (c : UInt8) : Scanner :=
  if isSpace c then s
  else if c = byte '{' then s.pushParseState .objectKey .beginStringOrEmpty
  else if c = byte '[' then s.pushParseState .arrayValue .beginValueOrEmpty
  else if c = byte '"' then s.goto .inString
  else if c = byte '-' then s.goto .neg
  else if c = byte '0' then s.goto .zero
  else if c = byte 't' then s.goto .t
  else if c = byte 'f' then s.goto .f
  else if c = byte 'n' then s.goto .n
  else if isDigit c then s.goto .one
  else s.fail

def stateBeginString (s : Scanner) (c : UInt8) : Scanner :=
  if isSpace c then s
  else if c = byte '"' then s.goto .inString
  else s.fail

def stateBeginStringOrEmpty (s : Scanner) (c : UInt8) : Scanner :=
  if isSpace c then s
  else if c = byte '}' then
    stateEndValue { s with parseState := .objectValue :: s.parseState.tail } c
  else stateBeginString s c

def stateInString (s : Scanner) (c : UInt8) : Scanner :=
  if c = byte '"' then s.goto .endValue
  else if c = byte '\\' then s.goto .inStringEsc
  else if c < 0x20 then s.fail
  else s

def stateInStringEsc (s : Scanner) (c : UInt8) : Scanner :=
  if c = byte 'u' then s.goto .inStringEscU
  else if ['b', 'f', 'n', 'r', 't', '\\', '/', '"'].any (c = byte ·) then s.goto .inString
  else s.fail

def stateEscHex (s : Scanner) (next : Step) (c : UInt8) : Scanner :=
  if isHex c then s.goto next else s.fail

def state0 (s : Scanner) (c : UInt8) : Scanner :=
  if c = byte '.' then s.goto .dot
  else if c = byte 'e' || c = byte 'E' then s.goto .exp
  else stateEndValue s c

def stateExpSign (s : Scanner) (c : UInt8) : Scanner :=
  if isDigit c then s.goto .exp0 else s.fail

def stateLiteral (s : Scanner) (want : Char) (next : Step) (c : UInt8) : Scanner :=
  if c = byte want then s.goto next else s.fail

def next (s : Scanner) (c : UInt8) : Scanner :=
  match s.step with
  | .beginValueOrEmpty =>
    if isSpace c then s
    else if c = byte ']' then stateEndValue s c
    else stateBeginValue s c
  | .beginValue => stateBeginValue s c
  | .beginStringOrEmpty => stateBeginStringOrEmpty s c
  | .beginString => stateBeginString s c
  | .endValue => stateEndValue s c
  | .endTop => stateEndTop s c
  | .inString => stateInString s c
  | .inStringEsc => stateInStringEsc s c
  | .inStringEscU => stateEscHex s .inStringEscU1 c
  | .inStringEscU1 => stateEscHex s .inStringEscU12 c
  | .inStringEscU12 => stateEscHex s .inStringEscU123 c
  | .inStringEscU123 => stateEscHex s .inString c
  | .neg =>
    if c = byte '0' then s.goto .zero
    else if isDigit c then s.goto .one
    else s.fail
  | .one => if isDigit c then s.goto .one else state0 s c
  | .zero => state0 s c
  | .dot => if isDigit c then s.goto .dot0 else s.fail
  | .dot0 =>
    if isDigit c then s
    else if c = byte 'e' || c = byte 'E' then s.goto .exp
    else stateEndValue s c
  | .exp => if c = byte '+' || c = byte '-' then s.goto .expSign else stateExpSign s c
  | .expSign => stateExpSign s c
  | .exp0 => if isDigit c then s else stateEndValue s c
  | .t => stateLiteral s 'r' .tr c
  | .tr => stateLiteral s 'u' .tru c
  | .tru => stateLiteral s 'e' .endValue c
  | .f => stateLiteral s 'a' .fa c
  | .fa => stateLiteral s 'l' .fal c
  | .fal => stateLiteral s 's' .fals c
  | .fals => stateLiteral s 'e' .endValue c
  | .n => stateLiteral s 'u' .nu c
  | .nu => stateLiteral s 'l' .nul c
  | .nul => stateLiteral s 'l' .endValue c
  | .error => s

/-- `scanner.eof`: whether the input may end here. -/
def eof (s : Scanner) : Bool :=
  if s.step = .error then false
  else if s.endTop then true
  else (s.next (byte ' ')).endTop

end Scanner

def valid (b : Bytes) : Bool := (b.foldl Scanner.next Scanner.reset).eof

/-! ## String literals -/

def hexValue : Rune → Option Nat
  | .char c =>
    if '0' ≤ c && c ≤ '9' then some (c.toNat - '0'.toNat)
    else if 'a' ≤ c && c ≤ 'f' then some (c.toNat - 'a'.toNat + 10)
    else if 'A' ≤ c && c ≤ 'F' then some (c.toNat - 'A'.toNat + 10)
    else none
  | .bad _ => none

/-- `getu4` on the four runes after the escape's `u`. -/
def getu4 (a b c d : Rune) : Option Nat := do
  return ((← hexValue a) * 16 + (← hexValue b)) * 256 + (← hexValue c) * 16 + (← hexValue d)

def replacementChar : Char := Char.ofNat 0xFFFD

/-- The one-letter escapes of `unquoteBytes`. -/
def simpleEscape : Char → Option Char
  | '"' => some '"'
  | '\\' => some '\\'
  | '/' => some '/'
  | '\'' => some '\''
  | 'b' => some (Char.ofNat 8)
  | 'f' => some (Char.ofNat 12)
  | 'n' => some '\n'
  | 'r' => some '\r'
  | 't' => some '\t'
  | _ => none

/-- The escape loop of `unquoteBytes`, over the runes between the quotes. -/
def unquoteRunes : List Rune → Option (List Char)
  | [] => some []
  | .bad _ :: rest => (unquoteRunes rest).map (replacementChar :: ·)
  | .char c :: rest =>
    if c = '\\' then
      match rest with
      | .char 'u' :: a :: b :: c :: d :: rest =>
        match getu4 a b c d with
        | none => none
        | some rr =>
          if 0xD800 ≤ rr && rr < 0xE000 then
            match rest with
            | .char '\\' :: .char 'u' :: a' :: b' :: c' :: d' :: rest' =>
              match getu4 a' b' c' d' with
              | none => none
              | some rr1 =>
                -- a valid pair is one rune, else only the first half is consumed
                if rr < 0xDC00 && 0xDC00 ≤ rr1 && rr1 < 0xE000 then
                  (unquoteRunes rest').map
                    (Char.ofNat ((rr - 0xD800) * 0x400 + (rr1 - 0xDC00) + 0x10000) :: ·)
                else
                  (unquoteRunes
                    (.char '\\' :: .char 'u' :: a' :: b' :: c' :: d' :: rest')).map
                    (replacementChar :: ·)
            | rest => (unquoteRunes rest).map (replacementChar :: ·)
          else (unquoteRunes rest).map (Char.ofNat rr :: ·)
      | .char e :: rest =>
        match simpleEscape e with
        | some c => (unquoteRunes rest).map (c :: ·)
        | none => none
      | _ => none
    else if c = '"' || c < ' ' then none
    else (unquoteRunes rest).map (c :: ·)

/-- `unquoteBytes`. -/
def unquote (b : Bytes) : Option Bytes :=
  match b with
  | [] => none
  | first :: rest =>
    if first = byte '"' && rest.getLast? = some (byte '"') then
      (unquoteRunes (runes rest.dropLast)).map encode
    else none

/-- `json.Unmarshal` into a string that is empty before the call. -/
def unmarshalString (b : Bytes) : Option Bytes :=
  if !valid b then none
  else
    let lit := ((b.dropWhile Scanner.isSpace).reverse.dropWhile Scanner.isSpace).reverse
    match lit.head? with
    | some c =>
      if c = byte '"' then unquote lit
      -- `null` leaves the string as it was
      else if c = byte 'n' then some []
      else none
    | none => none

/-! ## Go quoting read as JSON -/

open Strconv

/-- The characters on which Go's quoting and JSON's string grammar agree: `\a`,
`\v`, `\x` and `\U` are not JSON escapes. -/
def Quotable (printable : Char → Bool) (c : Char) : Prop :=
  ¬ (c.toNat < 0x08 ∨ c.toNat = 0x0B ∨ (0x0E ≤ c.toNat ∧ c.toNat < 0x20) ∨ c.toNat = 0x7F) ∧
    (0x10000 ≤ c.toNat → isPrint printable c = true)

instance (printable : Char → Bool) (c : Char) : Decidable (Quotable printable c) :=
  inferInstanceAs (Decidable (_ ∧ _))

/-- The three shapes of a JSON-compatible escape. -/
inductive Escape (c : Char) : List Char → Prop
  | raw (hlow : 0x20 ≤ c.toNat) (hquote : c ≠ '"') (hslash : c ≠ '\\') : Escape c [c]
  | simple (x : Char) (hx : x ∈ ['b', 'f', 'n', 'r', 't', '\\', '"'])
      (hc : simpleEscape x = some c) : Escape c ['\\', x]
  | unicode (hlt : c.toNat < 0x10000) : Escape c ('\\' :: 'u' :: hexPad 4 c.toNat)

variable {c : Char} {printable : Char → Bool}

theorem char_eq_of_toNat {n : Nat} (h : c.toNat = n) : c = Char.ofNat n := by
  rw [← h, Char.ofNat_toNat]

theorem escapeRune_escape (h : Quotable printable c) : Escape c (escapeRune printable c) := by
  obtain ⟨hctl, hhigh⟩ := h
  unfold escapeRune
  by_cases hq : (c = '"' || c = '\\') = true
  · simp only [Bool.or_eq_true, decide_eq_true_eq] at hq
    rcases hq with rfl | rfl
    · exact .simple _ (by decide) rfl
    · exact .simple _ (by decide) rfl
  rw [if_neg hq]
  simp only [Bool.or_eq_true, decide_eq_true_eq, not_or] at hq
  by_cases hprint : isPrint printable c = true
  · rw [if_pos hprint]
    refine .raw ?_ hq.1 hq.2
    unfold isPrint at hprint
    split at hprint
    · simp only [Bool.or_eq_true, Bool.and_eq_true, decide_eq_true_eq] at hprint
      omega
    · omega
  rw [if_neg hprint, if_neg (by omega)]
  by_cases hb : c.toNat = 8
  · exact char_eq_of_toNat hb ▸ .simple _ (by decide) rfl
  rw [if_neg hb]
  by_cases hf : c.toNat = 12
  · exact char_eq_of_toNat hf ▸ .simple _ (by decide) rfl
  rw [if_neg hf]
  by_cases hn : c.toNat = 10
  · exact char_eq_of_toNat hn ▸ .simple _ (by decide) rfl
  rw [if_neg hn]
  by_cases hr : c.toNat = 13
  · exact char_eq_of_toNat hr ▸ .simple _ (by decide) rfl
  rw [if_neg hr]
  by_cases ht : c.toNat = 9
  · exact char_eq_of_toNat ht ▸ .simple _ (by decide) rfl
  have hcontrol : ¬ (c.toNat < 0x20 || c.toNat = 0x7F) = true := by
    simp only [Bool.or_eq_true, decide_eq_true_eq]
    omega
  rw [if_neg ht, if_neg (by omega), if_neg hcontrol]
  by_cases hlt : c.toNat < 0x10000
  · rw [if_pos hlt]
    exact .unicode hlt
  · exact absurd (hhigh (by omega)) hprint

theorem escapeRune_unsafe (h : ¬ Quotable printable c) :
    ∃ x rest, escapeRune printable c = '\\' :: x :: rest ∧ x ∈ ['a', 'v', 'x', 'U'] := by
  have hcases : (c.toNat < 0x08 ∨ c.toNat = 0x0B ∨ (0x0E ≤ c.toNat ∧ c.toNat < 0x20) ∨
      c.toNat = 0x7F) ∨ (0x10000 ≤ c.toNat ∧ ¬ isPrint printable c = true) := by
    by_contra hcon
    rw [not_or, not_and, not_not] at hcon
    exact h ⟨hcon.1, hcon.2⟩
  have hq : ¬ ((c = '"' || c = '\\') = true) := by
    simp only [Bool.or_eq_true, decide_eq_true_eq]
    rintro (rfl | rfl)
    · have hquote : '"'.toNat = 34 := rfl
      omega
    · have hslash : '\\'.toNat = 92 := rfl
      omega
  have hprint : ¬ isPrint printable c = true := by
    rcases hcases with hctl | hhigh
    · unfold isPrint
      rw [if_pos (by omega)]
      simp only [Bool.or_eq_true, Bool.and_eq_true, decide_eq_true_eq]
      omega
    · exact hhigh.2
  unfold escapeRune
  rw [if_neg hq, if_neg hprint]
  by_cases ha : c.toNat = 7
  · rw [if_pos ha]
    exact ⟨_, _, rfl, by decide⟩
  rw [if_neg ha, if_neg (by omega), if_neg (by omega), if_neg (by omega), if_neg (by omega),
    if_neg (by omega)]
  by_cases hv : c.toNat = 11
  · rw [if_pos hv]
    exact ⟨_, _, rfl, by decide⟩
  rw [if_neg hv]
  by_cases hlow : (c.toNat < 0x20 || c.toNat = 0x7F) = true
  · rw [if_pos hlow]
    exact ⟨_, _, rfl, by decide⟩
  · rw [if_neg hlow]
    simp only [Bool.or_eq_true, decide_eq_true_eq] at hlow
    rw [if_neg (by omega)]
    exact ⟨_, _, rfl, by decide⟩

theorem hexPad_four (n : Nat) : hexPad 4 n =
    [hexDigit (n / 4096 % 16), hexDigit (n / 256 % 16), hexDigit (n / 16 % 16),
      hexDigit (n % 16)] := by
  simp [hexPad, Nat.div_div_eq_div_mul]

/-! ### Scanning -/

namespace Scanner

variable {s : Scanner}

theorem foldl_error (h : s.step = .error) (b : Bytes) : b.foldl next s = s := by
  induction b with
  | nil => rfl
  | cons c b ih =>
    have hstep : s.next c = s := by rw [next, h]
    rw [foldl_cons, hstep, ih]

theorem foldl_plain (hs : s.step = .inString) (b : Bytes)
    (hb : ∀ c ∈ b, c ≠ byte '"' ∧ c ≠ byte '\\' ∧ ¬ c < 0x20) : b.foldl next s = s := by
  induction b with
  | nil => rfl
  | cons c b ih =>
    obtain ⟨h1, h2, h3⟩ := hb c mem_cons_self
    have hstep : s.next c = s := by
      rw [next, hs]
      simp only [stateInString, if_neg h1, if_neg h2, if_neg h3]
    rw [foldl_cons, hstep]
    exact ih fun x hx => hb x (mem_cons_of_mem c hx)

theorem byte_ne {c d : Char} (hc : c.toNat < 128) (hd : d.toNat < 128) (h : c ≠ d) :
    byte c ≠ byte d := by
  intro heq
  have hnat := congrArg UInt8.toNat heq
  rw [byte, byte, UInt8.toNat_ofNat', UInt8.toNat_ofNat'] at hnat
  apply h
  rw [char_eq_of_toNat (c := c) rfl, char_eq_of_toNat (c := d) rfl]
  exact congrArg Char.ofNat (by omega)

theorem plain_of_mem {c : Char} (hlow : 0x20 ≤ c.toNat) (hquote : c ≠ '"')
    (hslash : c ≠ '\\') {b : UInt8} (hb : b ∈ String.utf8EncodeChar c) :
    b ≠ byte '"' ∧ b ≠ byte '\\' ∧ ¬ b < 0x20 := by
  by_cases hascii : c.toNat < 128
  · rw [utf8EncodeChar_ascii hascii, mem_singleton] at hb
    subst hb
    refine ⟨byte_ne hascii (by decide) hquote, byte_ne hascii (by decide) hslash, ?_⟩
    rw [UInt8.lt_iff_toNat_lt]
    show ¬ c.toNat % 256 < 32
    omega
  · have hhigh := le_of_mem_utf8EncodeChar (Nat.le_of_not_lt hascii) hb
    refine ⟨?_, ?_, ?_⟩
    · rintro rfl
      exact absurd hhigh (by decide)
    · rintro rfl
      exact absurd hhigh (by decide)
    · rw [UInt8.lt_iff_toNat_lt]
      show ¬ b.toNat < 32
      omega

theorem next_slash (hs : s.step = .inString) : s.next (byte '\\') = s.goto .inStringEsc := by
  rw [next, hs]
  rfl

theorem goto_goto (s : Scanner) (a b : Step) : (s.goto a).goto b = s.goto b := rfl

theorem goto_self {a : Step} (hs : s.step = a) : s.goto a = s := by
  rw [← hs]
  rfl

theorem encode_hexDigit (n : Nat) :
    isHex (byte (hexDigit (n % 16))) = true ∧
      String.utf8EncodeChar (hexDigit (n % 16)) = [byte (hexDigit (n % 16))] := by
  have hall : ∀ k < 16, isHex (byte (hexDigit k)) = true ∧ (hexDigit k).toNat < 128 := by
    decide
  obtain ⟨hhex, hlt⟩ := hall (n % 16) (Nat.mod_lt _ (by decide))
  exact ⟨hhex, utf8EncodeChar_ascii hlt⟩

theorem encode_simple : ∀ x ∈ ['b', 'f', 'n', 'r', 't', '\\', '"'],
    encode ['\\', x] = [byte '\\', byte x] ∧ byte x ≠ byte 'u' ∧
      (['b', 'f', 'n', 'r', 't', '\\', '/', '"'].any (byte x = byte ·)) = true := by
  simp only [forall_mem_cons, not_mem_nil, false_imp_iff, implies_true, and_true]
  decide

/-- A JSON-compatible escape leaves the scanner inside the string. -/
theorem foldl_escape (hs : s.step = .inString) {c : Char} {e : List Char} (he : Escape c e) :
    (encode e).foldl next s = s := by
  cases he with
  | raw hlow hquote hslash =>
    rw [encode_cons, encode_nil, append_nil]
    exact foldl_plain hs _ fun b hb => plain_of_mem hlow hquote hslash hb
  | simple x hx hc =>
    obtain ⟨hbytes, hu, hany⟩ := encode_simple x hx
    have hesc : (s.goto .inStringEsc).next (byte x) = s.goto .inString := by
      show stateInStringEsc _ _ = _
      rw [stateInStringEsc, if_neg hu, if_pos hany, goto_goto]
    rw [hbytes, foldl_cons, foldl_cons, foldl_nil, next_slash hs, hesc, goto_self hs]
  | unicode hlt =>
    have hbytes : encode ('\\' :: 'u' :: hexPad 4 c.toNat) =
        byte '\\' :: byte 'u' :: (hexPad 4 c.toNat).map byte := by
      rw [hexPad_four]
      simp only [encode_cons, encode_nil, (encode_hexDigit _).2, map_cons, map_nil]
      rfl
    have hu : (s.goto .inStringEsc).next (byte 'u') = s.goto .inStringEscU := rfl
    rw [hbytes, foldl_cons, foldl_cons, next_slash hs, hexPad_four]
    simp only [map_cons, map_nil, foldl_cons, foldl_nil, next, goto,
      stateEscHex, (encode_hexDigit _).1, if_true]
    exact goto_self hs

/-- Any other escape Go writes is a scan error. -/
theorem foldl_unsafe (hs : s.step = .inString) {x : Char} (hx : x ∈ ['a', 'v', 'x', 'U'])
    (rest : List Char) : ((encode ('\\' :: x :: rest)).foldl next s).step = .error := by
  have hall : ∀ x ∈ ['a', 'v', 'x', 'U'], String.utf8EncodeChar '\\' = [byte '\\'] ∧
      String.utf8EncodeChar x = [byte x] ∧ byte x ≠ byte 'u' ∧
      ¬ (['b', 'f', 'n', 'r', 't', '\\', '/', '"'].any (byte x = byte ·)) = true := by
    simp only [forall_mem_cons, not_mem_nil, false_imp_iff, implies_true, and_true]
    decide
  obtain ⟨hslash, hbyte, hu, hany⟩ := hall x hx
  have hesc : (s.goto .inStringEsc).next (byte x) = s.fail := by
    show stateInStringEsc _ _ = _
    rw [stateInStringEsc, if_neg hu, if_neg hany]
    rfl
  rw [encode_cons, encode_cons, hslash, hbyte, singleton_append, singleton_append,
    foldl_cons, foldl_cons, next_slash hs, hesc, foldl_error rfl]
  rfl

/-- The scanner's fate on a quoted text is decided by its characters. -/
theorem foldl_quoted {printable : Char → Bool} (hs : s.step = .inString) (cs : List Char) :
    ((∀ c ∈ cs, Quotable printable c) →
      (encode (cs.flatMap (escapeRune printable))).foldl next s = s) ∧
    (¬ (∀ c ∈ cs, Quotable printable c) →
      ((encode (cs.flatMap (escapeRune printable))).foldl next s).step = .error) := by
  induction cs with
  | nil => simp
  | cons c cs ih =>
    rw [flatMap_cons, encode_append, foldl_append]
    by_cases hc : Quotable printable c
    · rw [foldl_escape hs (escapeRune_escape hc)]
      simpa [hc] using ih
    · refine ⟨fun h => absurd (h c mem_cons_self) hc, fun _ => ?_⟩
      obtain ⟨x, rest, heq, hx⟩ := escapeRune_unsafe hc
      have herr := foldl_unsafe hs hx rest
      rw [heq, foldl_error herr]
      exact herr

end Scanner

theorem bytes_quote (printable : Char → Bool) (cs : List Char) :
    bytes (quote printable (encode cs)) =
      byte '"' :: encode (cs.flatMap (escapeRune printable)) ++ [byte '"'] := by
  rw [bytes, quote, runes_encode, flatMap_map, String.toList_ofList, encode_append, encode_cons]
  rfl

/-- `json.Valid(strconv.Quote(s))` for a valid UTF-8 text. -/
theorem valid_quote_iff (printable : Char → Bool) (cs : List Char) :
    valid (bytes (quote printable (encode cs))) = true ↔ ∀ c ∈ cs, Quotable printable c := by
  have hfirst : Scanner.reset.next (byte '"') = Scanner.reset.goto .inString := rfl
  rw [bytes_quote, valid, cons_append, foldl_cons, hfirst, foldl_append]
  obtain ⟨hsafe, hbreak⟩ := @Scanner.foldl_quoted (Scanner.reset.goto .inString)
    printable rfl cs
  by_cases h : ∀ c ∈ cs, Quotable printable c
  · rw [hsafe h]
    exact iff_of_true rfl h
  · rw [Scanner.foldl_error (hbreak h)]
    refine iff_of_false ?_ h
    rw [Scanner.eof, if_pos (hbreak h)]
    exact Bool.false_ne_true

/-! ### Reading back -/

theorem hexValue_hexDigit (n : Nat) : hexValue (.char (hexDigit (n % 16))) = some (n % 16) := by
  have hall : ∀ k < 16, hexValue (.char (hexDigit k)) = some k := by decide
  exact hall _ (Nat.mod_lt _ (by decide))

theorem unquoteRunes_escape {e : List Char} (he : Escape c e) (rest : List Rune) :
    unquoteRunes (e.map .char ++ rest) = (unquoteRunes rest).map (c :: ·) := by
  cases he with
  | raw hlow hquote hslash =>
    have hspace : ¬ c < ' ' := by
      exact Nat.not_lt_of_le hlow
    rw [map_singleton, singleton_append, unquoteRunes.eq_def]
    simp [hslash, hquote, hspace]
  | simple x hx hc =>
    have hu : x ≠ 'u' := by
      rintro rfl
      simp at hx
    rw [map_cons, map_singleton, cons_append, singleton_append, unquoteRunes.eq_def]
    simp [hu, hc]
  | unicode hlt =>
    have hnat : ((c.toNat / 4096 % 16) * 16 + c.toNat / 256 % 16) * 256 +
        (c.toNat / 16 % 16) * 16 + c.toNat % 16 = c.toNat := by
      omega
    have hsurrogate : ¬ (0xD800 ≤ c.toNat ∧ c.toNat < 0xE000) := by
      rcases c.valid with hlow | ⟨hhigh, _⟩
      · have hlow' : c.toNat < 0xD800 := hlow
        omega
      · have hhigh' : 0xDFFF < c.toNat := hhigh
        omega
    rw [hexPad_four, unquoteRunes.eq_def]
    simp only [map_cons, map_nil, cons_append, nil_append, if_true,
      getu4, hexValue_hexDigit, Option.pure_def, Option.bind_eq_bind, Option.bind_some]
    rw [hnat, if_neg (by simpa using hsurrogate), Char.ofNat_toNat]

theorem unquoteRunes_quoted (cs : List Char) (h : ∀ c ∈ cs, Quotable printable c) :
    unquoteRunes ((cs.flatMap (escapeRune printable)).map .char) = some cs := by
  induction cs with
  | nil => rfl
  | cons c cs ih =>
    rw [flatMap_cons, map_append, unquoteRunes_escape (escapeRune_escape (h c mem_cons_self)),
      ih fun x hx => h x (mem_cons_of_mem c hx)]
    rfl

theorem unmarshalString_quote (printable : Char → Bool) (cs : List Char)
    (h : ∀ c ∈ cs, Quotable printable c) :
    unmarshalString (bytes (quote printable (encode cs))) = some (encode cs) := by
  have hvalid := (valid_quote_iff printable cs).mpr h
  have hspace : Scanner.isSpace (byte '"') = false := by decide
  have htrim : ∀ body : Bytes,
      ((((byte '"' :: body ++ [byte '"']).dropWhile Scanner.isSpace).reverse.dropWhile
        Scanner.isSpace).reverse) = byte '"' :: body ++ [byte '"'] := by
    intro body
    rw [cons_append, dropWhile_cons_of_neg (by simp [hspace]), reverse_cons, reverse_append,
      reverse_singleton, singleton_append, cons_append, dropWhile_cons_of_neg (by simp [hspace])]
    simp
  rw [unmarshalString, hvalid, bytes_quote, htrim]
  simp only [Bool.not_true, Bool.false_eq_true, if_false, cons_append, head?_cons, if_true, unquote,
    getLast?_append, getLast?_singleton, Option.some_or, dropLast_concat, decide_true,
    Bool.and_self, runes_encode, unquoteRunes_quoted cs h, Option.map_some]

end MockAgents.Lib.Json
