import MockAgents.Adapter.Paging
/-!
# Following the pages of a conversation

The cursor leads behind the first item with its id.  So the pages cover the items once exactly
when the last item of every page but the last is the first one with its id; from a page that
ends with a repeated id the client goes back.
-/

namespace MockAgents.Adapter

open Lib Lib.Utf8 List Option

variable {items : List ConversationItem} {it : ConversationItem} {i limit start : Nat}

/-- The item has an id and no earlier item has the same. -/
def FirstOfID (items : List ConversationItem) (i : Nat) : Prop :=
  items[i]?.map (·.id) ≠ some [] ∧ ∀ j < i, items[j]?.map (·.id) ≠ items[i]?.map (·.id)

/-- Every page from a place on, but the last, ends with the first item of its id. -/
def EndsFirst (items : List ConversationItem) (limit start : Nat) : Prop :=
  ∀ k, start + (k + 1) * limit < items.length → FirstOfID items (start + (k + 1) * limit - 1)

theorem endsFirst_iff (hmore : start + limit < items.length) : EndsFirst items limit start ↔
    FirstOfID items (start + limit - 1) ∧ EndsFirst items limit (start + limit) := by
  have hplace : ∀ k, start + (k + 1 + 1) * limit = start + limit + (k + 1) * limit := fun k => by
    rw [Nat.succ_mul (k + 1), Nat.add_comm (_ * _), Nat.add_assoc]
  constructor
  · intro h
    refine ⟨by simpa using h 0 (by simpa using hmore), fun k hk => ?_⟩
    rw [← hplace] at hk ⊢
    exact h (k + 1) hk
  · rintro ⟨hfirst, hrest⟩ k hk
    cases k with
    | zero => simpa using hfirst
    | succ k =>
      rw [hplace] at hk ⊢
      exact hrest k hk

/-- The items that are left behind a cursor. -/
def behind (items : List ConversationItem) (after : Bytes) : List ConversationItem :=
  if after = [] then items else itemsAfter items after

/-- The cursor leads behind an item of the given place or an earlier one. -/
theorem behind_eq (hi : items[i]? = some it) : ∃ next ≤ i + 1,
    behind items it.id = items.drop next ∧ (next = i + 1 ↔ FirstOfID items i) := by
  by_cases hempty : it.id = []
  · exact ⟨0, Nat.zero_le _, by simp [behind, hempty], by simp [FirstOfID, hi, hempty]⟩
  cases hfind : items.findIdx? fun x => x.id = it.id with
  | none => exact absurd (findIdx?_eq_none_iff.mp hfind it (mem_of_getElem? hi)) (by simp)
  | some j =>
    obtain ⟨hj, hid, hbefore⟩ := findIdx?_eq_some_iff_getElem.mp hfind
    have hji : j ≤ i := by grind
    refine ⟨j + 1, by omega, by rw [behind, if_neg hempty, itemsAfter, hfind], fun heq => ?_, fun h => ?_⟩
    · exact ⟨by simpa [hi] using hempty, fun l hl => by have := hbefore l (by omega); grind⟩
    · by_contra hne
      have := h.2 j (by omega)
      grind

theorem parseListLimit_pos (atoi : Bytes → Option Int) (s : Bytes) : 0 < parseListLimit atoi s 20 := by
  unfold parseListLimit
  grind

/-- A client that gets to the end has seen every item from its place on, and no more of them than
there are only if every page ends with the first item of its id; then it does get to the end. -/
theorem follow_spec {atoi : Bytes → Option Int} {conv : Conversation} {order text after : Bytes}
    (hitems : conv.ordered order = items) (hlimit : parseListLimit atoi text 20 = limit) (pages : Nat)
    (hafter : behind items after = items.drop start) (hstart : start ≤ items.length) :
    (∀ out, follow atoi conv order text pages after = some out → items.length ≤ start + out.length ∧
      (start + out.length = items.length → EndsFirst items limit start)) ∧
    (EndsFirst items limit start → items.length < start + pages →
      follow atoi conv order text pages after = some (items.drop start)) := by
  have hpos : 0 < limit := hlimit ▸ parseListLimit_pos atoi text
  induction pages generalizing after start with
  | zero => exact ⟨fun out hout => (by cases hout), fun _ hlen => (by omega)⟩
  | succ pages ih =>
    rw [behind] at hafter
    simp only [follow, handleListItems, hitems, hlimit, hafter, length_drop, decide_eq_true_eq,
      itemListEnvelope]
    by_cases hmore : start + limit < items.length
    · obtain ⟨it, hit⟩ : ∃ it, items[start + limit - 1]? = some it :=
        ⟨_, getElem?_eq_getElem (by omega)⟩
      have hlast : ((items.drop start).take limit).getLast? = some it := by
        rw [getLast?_eq_getElem?, length_take, length_drop, Nat.min_eq_left (by omega),
          getElem?_take_of_lt (by omega), getElem?_drop, ← Nat.add_sub_assoc hpos]
        exact hit
      obtain ⟨next, hle, hnext, hfirst⟩ := behind_eq hit
      rw [Nat.sub_add_cancel (by omega)] at hle hfirst
      obtain ⟨hseen, hends⟩ := ih hnext (by omega)
      simp only [if_pos (show limit < items.length - start by omega), hlast, map_some, getD_some]
      refine ⟨fun out hout => ?_, fun hall hlen => ?_⟩
      · obtain ⟨rest, hrest, rfl⟩ := map_eq_some_iff.mp hout
        obtain ⟨hall, hexact⟩ := hseen rest hrest
        rw [length_append, length_take, length_drop, endsFirst_iff hmore, ← hfirst]
        exact ⟨by omega, fun heq => ⟨by omega, (show next = start + limit by omega) ▸ hexact (by omega)⟩⟩
      · rw [endsFirst_iff hmore, ← hfirst] at hall
        obtain ⟨rfl, hall⟩ := hall
        rw [hends hall (by omega), map_some, ← drop_drop, take_append_drop]
    · simp only [if_neg (show ¬ limit < items.length - start by omega)]
      refine ⟨?_, fun _ _ => trivial⟩
      rintro _ ⟨⟩
      rw [length_drop]
      refine ⟨by omega, fun _ k hk => absurd hk ?_⟩
      have := Nat.le_mul_of_pos_left limit (show 0 < k + 1 by omega)
      omega

/-- **The pages of a conversation** end, and show every item once, exactly when the last item of
every page but the last is the first one in the listing with its id. -/
theorem paging_complete_iff (conv : Conversation) (atoi : Bytes → Option Int) (order limit : Bytes) :
    (∃ pages out, follow atoi conv order limit pages [] = some out ∧ out.Perm conv.items) ↔
      EndsFirst (conv.ordered order) (parseListLimit atoi limit 20) 0 := by
  have hperm : (conv.ordered order).Perm conv.items := by
    rw [Conversation.ordered]
    split
    · exact .refl _
    · exact reverse_perm _
  have hstart : behind (conv.ordered order) [] = (conv.ordered order).drop 0 := if_pos rfl
  constructor
  · rintro ⟨pages, out, hout, hall⟩
    refine ((follow_spec rfl rfl pages hstart (Nat.zero_le _)).1 out hout).2 ?_
    rw [Nat.zero_add, hall.length_eq, hperm.length_eq]
  · intro hends
    exact ⟨(conv.ordered order).length + 1, _,
      (follow_spec rfl rfl _ hstart (Nat.zero_le _)).2 hends (by omega), hperm⟩

/-- A conversation created with three items of one id. -/
def threeAlike : Conversation :=
  Conversation.appendItems ⟨[], 0⟩ (fun _ => ⟨[], 0⟩)
    (List.replicate 3 ⟨bytes "a", [], [], 0, [], [], [], [], [], [], []⟩)

/-- Behind the second item the client gets the second item again. -/
theorem paging_repeats :
    let page := handleListItems (fun _ => some 1) threeAlike (bytes "asc") (bytes "1")
    (page []).lastID = some (bytes "a") ∧ (page (bytes "a")).hasMore = true ∧
      (page (bytes "a")).lastID = some (bytes "a") := by
  decide +kernel

end MockAgents.Adapter
