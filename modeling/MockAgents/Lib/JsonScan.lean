import MockAgents.Lib.Json
/-!
# Texts that start an object

A text that opens with a brace is accepted only when that brace has been closed, and after that
only white space may follow.  So a text that ends with its closing brace has no other accepted
prefix.

Containers nest up to a limit, which a text may exceed that is embedded in another.
-/

namespace MockAgents.Lib.Json

open Utf8 List Scanner

namespace Scanner

def Open (s : Scanner) : Prop := s.parseState ≠ [] ∧ s.endTop = false

def Done (s : Scanner) : Prop := s.step = .endTop ∧ s.endTop = true

section Open
variable {s : Scanner}

theorem Open.push (h : s.Open) (new : ParseState) (success : Step) : (s.pushParseState new success).Open := by
  unfold pushParseState
  split
  · exact ⟨cons_ne_nil _ _, h.2⟩
  · exact h

theorem Open.pop (h : s.Open) : s.popParseState.Open ∨ s.popParseState.Done := by
  unfold popParseState
  dsimp only
  split
  · exact .inr ⟨rfl, rfl⟩
  next hrest => exact .inl ⟨by simpa using hrest, h.2⟩

theorem Open.endValue (h : s.Open) (c : UInt8) :
    (stateEndValue s c).Open ∨ ((stateEndValue s c).Done ∧ isSpace c = false) := by
  unfold stateEndValue
  split
  next hnil => exact absurd hnil h.1
  next ps rest hstack =>
    split
    · exact .inl h
    next hspace =>
      have hclose : s.popParseState.Open ∨ (s.popParseState.Done ∧ isSpace c = false) :=
        h.pop.imp_right fun hdone => ⟨hdone, by simpa using hspace⟩
      split
      · split
        · exact .inl ⟨cons_ne_nil _ _, h.2⟩
        · exact .inl h
      · split
        · exact .inl ⟨cons_ne_nil _ _, h.2⟩
        · split
          · exact hclose
          · exact .inl h
      · split
        · exact .inl h
        · split
          · exact hclose
          · exact .inl h

theorem Open.beginValue (h : s.Open) (c : UInt8) : (stateBeginValue s c).Open := by
  unfold stateBeginValue
  repeat' split
  all_goals first
    | exact h
    | exact h.push _ _

theorem Open.beginString (h : s.Open) (c : UInt8) : (stateBeginString s c).Open := by
  unfold stateBeginString
  repeat' split
  all_goals exact h

theorem Open.number (h : s.Open) (c : UInt8) :
    (state0 s c).Open ∨ ((state0 s c).Done ∧ isSpace c = false) := by
  unfold state0
  repeat' split
  all_goals first
    | exact .inl h
    | exact h.endValue c

/-- One byte keeps a container open, or is the one that closes the last. -/
theorem Open.next (h : s.Open) (c : UInt8) :
    (s.next c).Open ∨ ((s.next c).Done ∧ isSpace c = false) := by
  have hempty : ({ s with parseState := .objectValue :: s.parseState.tail } : Scanner).Open :=
    ⟨cons_ne_nil _ _, h.2⟩
  unfold Scanner.next stateBeginStringOrEmpty stateEndTop stateInString stateInStringEsc stateEscHex
    stateExpSign stateLiteral
  repeat' split
  all_goals first
    | exact .inl h
    | exact .inl (h.beginValue c)
    | exact .inl (h.beginString c)
    | exact h.endValue c
    | exact hempty.endValue c
    | exact h.number c

theorem Open.eof (h : s.Open) : s.eof = false := by
  unfold Scanner.eof
  split
  · rfl
  · rw [if_neg (by rw [h.2]; exact Bool.false_ne_true)]
    rcases h.next (byte ' ') with hopen | ⟨-, hspace⟩
    · exact hopen.2
    · exact absurd hspace (by decide)

end Open

theorem Done.foldl {s : Scanner} (h : s.Done) {b : Bytes} (hvalid : (b.foldl Scanner.next s).eof = true) :
    ∀ c ∈ b, isSpace c = true := by
  induction b with
  | nil => exact fun c hc => absurd hc not_mem_nil
  | cons x b ih =>
    have hnext : s.next x = if isSpace x = true then s else s.fail := by
      rw [Scanner.next, h.1]
      rfl
    rw [foldl_cons, hnext] at hvalid
    split at hvalid
    next hspace => exact forall_mem_cons.mpr ⟨hspace, ih hvalid⟩
    next =>
      rw [foldl_error rfl] at hvalid
      simp [Scanner.eof, fail, goto] at hvalid

/-- A container that is open is still open after a text, or the text has a first byte that closes
it. -/
theorem Open.foldl {s : Scanner} (h : s.Open) (b : Bytes) :
    (b.foldl Scanner.next s).Open ∨
      ∃ before c after, b = before ++ c :: after ∧ ((before ++ [c]).foldl Scanner.next s).Done := by
  induction b generalizing s with
  | nil => exact .inl h
  | cons x b ih =>
    rcases h.next x with hopen | ⟨hdone, -⟩
    · rcases ih hopen with hstill | ⟨before, c, after, rfl, hdone⟩
      · exact .inl hstill
      · exact .inr ⟨x :: before, c, after, rfl, hdone⟩
    · exact .inr ⟨[], x, b, rfl, hdone⟩

end Scanner

/-- What follows an accepted text that opens with a brace is white space. -/
theorem valid_append_object {p q : Bytes} (hp : valid (byte '{' :: p) = true)
    (hpq : valid (byte '{' :: p ++ q) = true) : ∀ c ∈ q, isSpace c = true := by
  have hopen : (reset.next (byte '{')).Open := by
    refine ⟨?_, ?_⟩ <;> decide
  rw [valid, List.foldl_cons] at hp
  rw [valid, List.cons_append, List.foldl_cons, List.foldl_append] at hpq
  rcases hopen.foldl p with hstill | ⟨before, c, after, rfl, hdone⟩
  · rw [hstill.eof] at hp
    cases hp
  · rw [← List.singleton_append, ← List.append_assoc, List.foldl_append] at hpq
    rw [← List.foldl_append] at hpq
    exact fun x hx => hdone.foldl hpq x (List.mem_append_right _ hx)

/-- A text between braces has no proper prefix that is accepted. -/
theorem not_valid_prefix {p q : Bytes} (hp : p ≠ []) (hq : q ≠ [])
    (hopen : (p ++ q).head? = some (byte '{')) (hclose : (p ++ q).getLast? = some (byte '}'))
    (hvalid : valid (p ++ q) = true) : valid p = false := by
  obtain ⟨x, p, rfl⟩ := exists_cons_of_ne_nil hp
  obtain rfl : x = byte '{' := Option.some.inj hopen
  rw [Bool.eq_false_iff]
  intro hprefix
  have hspaces := valid_append_object hprefix hvalid
  have hlast : q.getLast? = some (byte '}') := by
    rw [getLast?_append] at hclose
    cases hlast : q.getLast? with
    | none => exact absurd (getLast?_eq_none_iff.mp hlast) hq
    | some c =>
      rw [hlast] at hclose
      exact hclose
  exact absurd (hspaces _ (mem_of_getLast? hlast)) (by decide)

/-! ## Nesting -/

def nested (depth : Nat) : Bytes := List.replicate depth (byte '[') ++ List.replicate depth (byte ']')

namespace Scanner

def Begins (s : Scanner) : Prop := s.step = .beginValue ∨ s.step = .beginValueOrEmpty

theorem Done.eof {s : Scanner} (h : s.Done) : s.eof = true := by
  rw [Scanner.eof, if_neg (by rw [h.1]; decide), if_pos h.2]

section Nesting
variable {s : Scanner}

theorem Begins.next (h : s.Begins) : s.next (byte '[') = s.pushParseState .arrayValue .beginValueOrEmpty := by
  rcases h with h | h
  · rw [Scanner.next, h]
    rfl
  · rw [Scanner.next, h]
    rfl

theorem Begins.foldl (h : s.Begins) {n : Nat} (hfits : s.parseState.length + n ≤ maxNestingDepth) :
    ((List.replicate n (byte '[')).foldl Scanner.next s).parseState = List.replicate n .arrayValue ++ s.parseState ∧
      ((List.replicate n (byte '[')).foldl Scanner.next s).Begins ∧
      ((List.replicate n (byte '[')).foldl Scanner.next s).endTop = s.endTop := by
  induction n generalizing s with
  | zero => exact ⟨rfl, h, rfl⟩
  | succ n ih =>
    have hpush : s.next (byte '[') = ⟨.beginValueOrEmpty, s.endTop, .arrayValue :: s.parseState⟩ := by
      rw [h.next, pushParseState, if_pos (by omega)]
    rw [List.replicate_succ, List.foldl_cons, hpush]
    obtain ⟨hstack, hbegins, hend⟩ := @ih ⟨.beginValueOrEmpty, s.endTop, .arrayValue :: s.parseState⟩ (.inr rfl)
      (by rw [List.length_cons]; omega)
    refine ⟨?_, hbegins, hend⟩
    rw [hstack, List.replicate_succ', List.append_assoc, List.singleton_append]

theorem Begins.foldl_too_deep (h : s.Begins) {n : Nat} (hdeep : maxNestingDepth < s.parseState.length + n) :
    s.parseState.length ≤ maxNestingDepth →
      ((List.replicate n (byte '[')).foldl Scanner.next s).step = .error := by
  intro hroom
  obtain ⟨m, hm⟩ := Nat.exists_eq_add_of_le hroom
  obtain ⟨k, rfl⟩ : ∃ k, n = m + (1 + k) := ⟨n - m - 1, by omega⟩
  obtain ⟨hstack, hbegins, -⟩ := h.foldl (n := m) (by omega)
  rw [List.replicate_add, List.foldl_append, List.replicate_add, List.foldl_append, List.replicate_one,
    List.foldl_cons, hbegins.next, pushParseState, if_neg, foldl_error rfl]
  · rfl
  · rw [hstack, List.length_append, List.length_replicate]
    omega

theorem foldl_close {n : Nat} (hstep : s.step = .beginValueOrEmpty ∨ s.step = .endValue)
    (hstack : s.parseState = List.replicate (n + 1) .arrayValue) :
    ((List.replicate (n + 1) (byte ']')).foldl Scanner.next s).Done := by
  have hnext : s.next (byte ']') = s.popParseState := by
    rcases hstep with hstep | hstep <;>
    · rw [Scanner.next, hstep]
      dsimp only
      rw [stateEndValue, hstack]
      rfl
  induction n generalizing s with
  | zero =>
    rw [List.replicate_one, List.foldl_cons, hnext, popParseState, hstack]
    exact ⟨rfl, rfl⟩
  | succ n ih =>
    have hpop : s.popParseState = ⟨.endValue, s.endTop, List.replicate (n + 1) .arrayValue⟩ := by
      rw [popParseState, hstack]
      rfl
    rw [List.replicate_succ, List.foldl_cons, hnext, hpop]
    refine ih (.inr rfl) rfl ?_
    rw [Scanner.next]
    rfl

end Nesting

end Scanner

theorem valid_nested {n : Nat} (h : n + 1 ≤ maxNestingDepth) : valid (nested (n + 1)) = true := by
  have hbegins : reset.Begins := .inl rfl
  obtain ⟨hstack, -, -⟩ := hbegins.foldl (n := n + 1) (by simpa [reset] using h)
  have hstep : ((List.replicate (n + 1) (byte '[')).foldl Scanner.next reset).step = .beginValueOrEmpty := by
    obtain ⟨hbefore, hready, -⟩ := hbegins.foldl (n := n) (by simp [reset]; omega)
    rw [replicate_succ', foldl_append, foldl_cons, foldl_nil, hready.next, pushParseState, if_pos]
    rw [hbefore, length_append, length_replicate]
    exact h
  rw [valid, nested, foldl_append]
  refine (foldl_close (.inl hstep) ?_).eof
  rw [hstack]
  exact append_nil _

/-- Inside other containers the same text may be too deep. -/
theorem not_valid_nested {before after : Bytes} {n : Nat} (hbegins : (before.foldl Scanner.next reset).Begins)
    (hroom : (before.foldl Scanner.next reset).parseState.length ≤ maxNestingDepth)
    (hdeep : maxNestingDepth < (before.foldl Scanner.next reset).parseState.length + n) :
    valid (before ++ nested n ++ after) = false := by
  have herror := hbegins.foldl_too_deep hdeep hroom
  rw [valid, nested, foldl_append, foldl_append, foldl_append, foldl_error herror,
    foldl_error herror, Scanner.eof, if_pos herror]

end MockAgents.Lib.Json
