import MockAgents.Lib.Utf8
/-!
# Decoded JSON

A JSON value as `encoding/json` decodes it into an `any`.  The members of an object stand
in a list; the first one with a key is the member under it.
-/

namespace MockAgents.Lib

inductive JsonValue (N : Type) where
  | null
  | bool (b : Bool)
  | number (x : N)
  | string (s : Bytes)
  | array (items : List (JsonValue N))
  | object (members : List (Bytes × JsonValue N))

namespace JsonValue

open Utf8 List

/-- A `map[string]any`. -/
abbrev Object (N : Type) := List (Bytes × JsonValue N)

variable {N : Type}

def get (m : Object N) (key : String) : Option (JsonValue N) := m.lookup (bytes key)

def object? : JsonValue N → Option (Object N)
  | .object m => some m
  | _ => none

def set (m : Object N) (key : Bytes) (v : JsonValue N) : Object N :=
  if m.any (·.1 = key) then m.map fun e => if e.1 = key then (key, v) else e else m ++ [(key, v)]

def setAll (m p : Object N) : Object N := p.foldl (fun m e => set m e.1 e.2) m

/-! ## The values in a value -/

mutual

def values : JsonValue N → List (JsonValue N)
  | .array items => .array items :: valuesOfItems items
  | .object members => .object members :: valuesOfMembers members
  | .null => [.null]
  | .bool b => [.bool b]
  | .number x => [.number x]
  | .string s => [.string s]

def valuesOfItems : List (JsonValue N) → List (JsonValue N)
  | [] => []
  | v :: items => values v ++ valuesOfItems items

def valuesOfMembers : List (Bytes × JsonValue N) → List (JsonValue N)
  | [] => []
  | (_, v) :: members => values v ++ valuesOfMembers members

end

theorem mem_values_self (v : JsonValue N) : v ∈ v.values := by
  cases v <;> simp [values]

theorem values_subset_items {v : JsonValue N} {items : List (JsonValue N)} (h : v ∈ items) :
    v.values ⊆ valuesOfItems items := by
  induction items with
  | nil => simp at h
  | cons w items ih =>
    rcases mem_cons.mp h with rfl | h
    · exact subset_append_left ..
    · exact subset_append_of_subset_right _ (ih h)

theorem values_subset_members {e : Bytes × JsonValue N} {members : Object N} (h : e ∈ members) :
    e.2.values ⊆ valuesOfMembers members := by
  induction members with
  | nil => simp at h
  | cons w members ih =>
    rcases mem_cons.mp h with rfl | h
    · exact subset_append_left ..
    · exact subset_append_of_subset_right _ (ih h)

mutual

theorem values_subset : ∀ {w v : JsonValue N}, v ∈ w.values → v.values ⊆ w.values
  | .array items, v, h => by
    rw [values] at h ⊢
    rcases mem_cons.mp h with rfl | h
    · rw [values]
      exact Subset.refl _
    · exact subset_cons_of_subset _ (valuesOfItems_subset h)
  | .object members, v, h => by
    rw [values] at h ⊢
    rcases mem_cons.mp h with rfl | h
    · rw [values]
      exact Subset.refl _
    · exact subset_cons_of_subset _ (valuesOfMembers_subset h)
  | .null, v, h | .bool _, v, h | .number _, v, h | .string _, v, h => by
    rw [values, mem_singleton] at h
    rw [h]
    exact Subset.refl _

theorem valuesOfItems_subset : ∀ {items : List (JsonValue N)} {v : JsonValue N},
    v ∈ valuesOfItems items → v.values ⊆ valuesOfItems items
  | [], v, h => by simp [valuesOfItems] at h
  | w :: items, v, h => by
    rw [valuesOfItems] at h ⊢
    rcases mem_append.mp h with h | h
    · exact subset_append_of_subset_left _ (values_subset h)
    · exact subset_append_of_subset_right _ (valuesOfItems_subset h)

theorem valuesOfMembers_subset : ∀ {members : List (Bytes × JsonValue N)} {v : JsonValue N},
    v ∈ valuesOfMembers members → v.values ⊆ valuesOfMembers members
  | [], v, h => by simp [valuesOfMembers] at h
  | (_, w) :: members, v, h => by
    rw [valuesOfMembers] at h ⊢
    rcases mem_append.mp h with h | h
    · exact subset_append_of_subset_left _ (values_subset h)
    · exact subset_append_of_subset_right _ (valuesOfMembers_subset h)

end

section
variable {root v : JsonValue N}

theorem item_mem {items : List (JsonValue N)} (h : .array items ∈ root.values) (hv : v ∈ items) :
    v ∈ root.values := by
  refine values_subset h ?_
  exact mem_cons_of_mem _ (values_subset_items hv (mem_values_self v))

theorem member_mem {m : Object N} (h : .object m ∈ root.values) {e : Bytes × JsonValue N}
    (he : e ∈ m) : e.2 ∈ root.values := by
  refine values_subset h ?_
  exact mem_cons_of_mem _ (values_subset_members he (mem_values_self e.2))

theorem mem_of_lookup {m : Object N} {key : Bytes} (h : m.lookup key = some v) : (key, v) ∈ m := by
  obtain ⟨before, after, rfl, -⟩ := lookup_eq_some_iff.mp h
  simp

end

theorem forall_mem_set {p : JsonValue N → Prop} {m : Object N} {key : Bytes} {v : JsonValue N}
    (hm : ∀ e ∈ m, p e.2) (hv : p v) : ∀ e ∈ set m key v, p e.2 := by
  intro e he
  unfold set at he
  split at he
  · obtain ⟨e', he', rfl⟩ := mem_map.mp he
    split
    · exact hv
    · exact hm e' he'
  · rcases mem_append.mp he with he | he
    · exact hm e he
    · obtain rfl : e = (key, v) := by simpa using he
      exact hv

theorem forall_mem_setAll {P : JsonValue N → Prop} {m p : Object N} (hm : ∀ e ∈ m, P e.2)
    (hp : ∀ e ∈ p, P e.2) : ∀ e ∈ setAll m p, P e.2 := by
  induction p generalizing m with
  | nil => exact hm
  | cons e p ih =>
    exact ih (forall_mem_set hm (hp e mem_cons_self)) fun e he =>
      hp e (mem_cons_of_mem _ he)

end JsonValue

end MockAgents.Lib
