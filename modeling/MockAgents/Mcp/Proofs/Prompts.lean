import MockAgents.Mcp.Prompts
/-!
# Placeholders are replaced at once

A template is a sequence of texts and placeholders.  Where no text and no value opens a
placeholder, each replacement finds the placeholders of its own name only.
-/

namespace MockAgents.Mcp

open Lib Lib.Utf8 Lib.Maps Lib.Strings List

inductive Piece where
  | text (t : Bytes)
  | hole (name : Bytes)

namespace Piece

def bytes : Piece → Bytes
  | text t => t
  | hole name => placeholder name

/-- The placeholder of an argument becomes its value. -/
def subst (args : List (Sigma fun _ : Bytes => Bytes)) : Piece → Piece
  | text t => text t
  | hole name => ((args.dlookup name).map text).getD (hole name)

theorem subst_nil : subst [] = id := by
  funext p
  cases p <;> rfl

theorem subst_cons (e : Sigma fun _ : Bytes => Bytes) (args : List (Sigma fun _ : Bytes => Bytes)) :
    subst (e :: args) = subst args ∘ subst [e] := by
  funext p
  cases p with
  | text t => rfl
  | hole name =>
    by_cases h : name = e.1
    · subst h
      rw [Function.comp_apply, subst, subst, dlookup_cons_eq, dlookup_cons_eq]
      rfl
    · rw [Function.comp_apply, subst, subst, dlookup_cons_ne _ _ h, dlookup_cons_ne _ _ h]
      rfl

end Piece

/-- No placeholder opens in the text, or at its end. -/
structure Unopened (t : Bytes) : Prop where
  inside : ¬ bytes "\x7b\x7b" <:+: t
  last : t.getLast? ≠ some 123

def Piece.Plain : Piece → Prop
  | text t => Unopened t
  | hole name => 123 ∉ name ∧ 125 ∉ name

variable {e : Sigma fun _ : Bytes => Bytes} {k t s name : Bytes}

theorem Piece.Plain.subst (he : Unopened e.2) {p : Piece} (h : p.Plain) : (p.subst [e]).Plain := by
  cases p with
  | text t => exact h
  | hole name =>
    by_cases heq : name = e.1
    · subst heq
      rw [Piece.subst, dlookup_cons_eq]
      exact he
    · rw [Piece.subst, dlookup_cons_ne _ _ heq]
      exact h

theorem placeholder_eq (name : Bytes) : placeholder name = 123 :: 123 :: (name ++ [125, 125]) := rfl

theorem Unopened.replaceAll (h : Unopened t) (v : Bytes) :
    replaceAll (t ++ s) (placeholder k) v = t ++ replaceAll s (placeholder k) v := by
  refine replaceAll_append (fun c y hy hocc => ?_) v
  rw [placeholder_eq] at hocc
  rcases y with _ | ⟨d, y⟩
  · obtain ⟨x, rfl⟩ := hy
    obtain ⟨rfl, -⟩ := cons_prefix_cons.mp hocc
    exact h.last (by simp)
  · obtain ⟨rfl, hnext⟩ := cons_prefix_cons.mp hocc
    obtain rfl : 123 = d := (cons_prefix_cons.mp hnext).1
    have hopen : bytes "\x7b\x7b" <+: 123 :: 123 :: y := ⟨y, rfl⟩
    exact h.inside (hopen.isInfix.trans hy.isInfix)

/-- A placeholder of another name stays. -/
theorem replaceAll_placeholder (hne : name ≠ k) (hname : 123 ∉ name ∧ 125 ∉ name) (hk : 125 ∉ k) (v : Bytes) :
    replaceAll (placeholder name ++ s) (placeholder k) v =
      placeholder name ++ replaceAll s (placeholder k) v := by
  refine replaceAll_append (fun c y hy hocc => ?_) v
  rw [placeholder_eq] at hy hocc
  obtain ⟨rfl, hnext⟩ := cons_prefix_cons.mp hocc
  rcases suffix_cons_iff.mp hy with heq | hy
  · obtain ⟨-, rfl⟩ := cons.inj heq
    obtain ⟨x, hx⟩ := (cons_prefix_cons.mp hnext).2
    have hrun : ∀ w r : Bytes, 125 ∉ w → (w ++ 125 :: r).takeWhile (· != 125) = w := fun w r hw => by
      rw [takeWhile_append_of_pos fun c hc => by simpa using ne_of_mem_of_not_mem hc hw]
      simp
    have hx' : k ++ 125 :: ([125] ++ x) = name ++ 125 :: ([125] ++ s) := by simpa using hx
    have := congrArg (takeWhile (· != 125)) hx'
    rw [hrun _ _ hk, hrun _ _ hname.2] at this
    exact hne this.symm
  · rcases suffix_cons_iff.mp hy with heq | hy
    · obtain ⟨-, rfl⟩ := cons.inj heq
      rcases name with _ | ⟨d, name⟩
      · exact absurd (cons_prefix_cons.mp hnext).1 (by decide)
      · obtain rfl : 123 = d := (cons_prefix_cons.mp hnext).1
        exact hname.1 mem_cons_self
    · have := hy.mem mem_cons_self
      simp [hname.1] at this

theorem replaceAll_pieces (hk : 125 ∉ e.1) {ps : List Piece} (hps : ∀ p ∈ ps, p.Plain) :
    replaceAll (ps.flatMap Piece.bytes) (placeholder e.1) e.2 =
      (ps.map (Piece.subst [e])).flatMap Piece.bytes := by
  induction ps with
  | nil => rfl
  | cons p ps ih =>
    rw [forall_mem_cons] at hps
    rw [flatMap_cons, map_cons, flatMap_cons, ← ih hps.2]
    cases p with
    | text t => exact hps.1.replaceAll _
    | hole name =>
      by_cases h : name = e.1
      · subst h
        rw [Piece.subst, dlookup_cons_eq]
        exact replaceAll_occurs (cons_ne_nil _ _) _ _
      · rw [Piece.subst, dlookup_cons_ne _ _ h]
        exact replaceAll_placeholder h hps.1 hk _

/-- The value of `a` is the placeholder of `b`. -/
def chained : AList fun _ : Bytes => Bytes :=
  (AList.singleton (bytes "b") (bytes "x")).insert (bytes "a") (placeholder (bytes "b"))

end MockAgents.Mcp
