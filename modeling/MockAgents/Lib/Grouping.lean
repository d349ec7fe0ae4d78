import Mathlib.Data.List.AList
/-!
# Items grouped by a key

A map from a key to the items added under it, in the order they were added.
-/

namespace MockAgents.Lib

open List

variable {κ α : Type} [DecidableEq κ]

abbrev Grouping (κ α : Type) := AList fun _ : κ => List α

namespace Grouping

def get (g : Grouping κ α) (k : κ) : List α := (g.lookup k).getD []

def add (g : Grouping κ α) (k : κ) (a : α) : Grouping κ α := g.insert k (g.get k ++ [a])

def addAll (key : α → κ) (g : Grouping κ α) (items : List α) : Grouping κ α :=
  items.foldl (fun g a => g.add (key a) a) g

@[simp] theorem get_empty (k : κ) : (∅ : Grouping κ α).get k = [] := rfl

theorem get_add (g : Grouping κ α) (k k' : κ) (a : α) :
    (g.add k a).get k' = if k = k' then g.get k' ++ [a] else g.get k' := by
  rw [add, get]
  split
  next heq =>
    subst heq
    rw [AList.lookup_insert, Option.getD_some]
  next hne => rw [AList.lookup_insert_ne (Ne.symm hne), get]

theorem get_addAll (key : α → κ) (g : Grouping κ α) (items : List α) (k : κ) :
    (g.addAll key items).get k = g.get k ++ items.filter fun a => key a = k := by
  induction items generalizing g with
  | nil => rw [addAll, foldl_nil, filter_nil, append_nil]
  | cons a items ih =>
    rw [addAll, foldl_cons, ← addAll, ih, get_add]
    split <;> simp_all

end Grouping

end MockAgents.Lib
