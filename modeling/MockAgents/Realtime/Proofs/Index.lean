import MockAgents.Realtime.Proofs.Frames
/-!
# The conversation index

The item order lists the keys of the item map once each, and the tail is its last
id.  The primitives that move an id keep this, the eviction included: it runs with
one item too many at most, and drops that item from both.
-/

namespace MockAgents.Realtime

open List AList

variable {F : Type}

/-! ## Orders that list the keys of a map -/

/-- The order lists the keys of the map once each. -/
structure Lists (order : List String) (items : AList fun _ : String => Nat) : Prop where
  nodup : order.Nodup
  mem : ∀ id, id ∈ order ↔ id ∈ items

variable {items : AList fun _ : String => Nat} {order : List String} {id : String}

theorem Lists.length_eq (h : Lists order items) : order.length = items.keys.length := by
  apply Perm.length_eq
  rw [perm_ext_iff_of_nodup h.nodup items.keys_nodup]
  intro id
  rw [h.mem, AList.mem_keys]

theorem Lists.perm {order' : List String} (h : Lists order items) (hp : order'.Perm order) :
    Lists order' items :=
  ⟨hp.nodup_iff.mpr h.nodup, fun id => hp.mem_iff.trans (h.mem id)⟩

theorem Lists.insert (h : Lists order items) (hid : id ∉ items) (loc : Nat) :
    Lists (id :: order) (items.insert id loc) := by
  refine ⟨nodup_cons.mpr ⟨fun hm => hid ((h.mem id).mp hm), h.nodup⟩, ?_⟩
  intro id'
  rw [mem_cons, mem_insert, h.mem]

theorem Lists.erase (h : Lists order items) (id : String) :
    Lists (order.erase id) (items.erase id) := by
  refine ⟨h.nodup.erase id, ?_⟩
  intro id'
  rw [h.nodup.mem_erase_iff, mem_erase, h.mem]

theorem keys_length_insert (items : AList fun _ : String => Nat) (hid : id ∉ items) (loc : Nat) :
    (items.insert id loc).keys.length = items.keys.length + 1 := by
  rw [keys_insert, length_cons, erase_of_not_mem (fun h => hid (mem_keys.mpr h))]

theorem keys_length_insert_mem (items : AList fun _ : String => Nat) (hid : id ∈ items) (loc : Nat)
    : (items.insert id loc).keys.length = items.keys.length := by
  rw [keys_insert, length_cons, length_erase_of_mem hid]
  have := length_pos_of_mem hid
  omega

theorem keys_length_erase (items : AList fun _ : String => Nat) (hid : id ∈ items) :
    (items.erase id).keys.length = items.keys.length - 1 := by
  rw [keys_erase, length_erase_of_mem (mem_keys.mp hid)]

/-! ## Eviction -/

theorem evict_of_le (order : List String) (h : items.keys.length ≤ maxSessionItems) :
    evict items order = (items, order) := by
  cases order with
  | nil => rfl
  | cons oldest rest => rw [evict, if_neg (by omega)]

theorem evict_of_over {oldest : String} (rest : List String)
    (h : items.keys.length = maxSessionItems + 1) (hmem : oldest ∈ items) :
    evict items (oldest :: rest) = (items.erase oldest, rest) := by
  have hlen := keys_length_erase items hmem
  rw [evict, if_pos (by omega), evict_of_le rest (by omega)]

theorem Lists.evict (h : Lists order items) (hlen : items.keys.length ≤ maxSessionItems + 1) :
    Lists (evict items order).2 (evict items order).1 ∧
      (evict items order).1.keys.length ≤ maxSessionItems ∧
      (evict items order).2.getLast? = order.getLast? ∧
      ∀ id ∈ (evict items order).1, id ∈ items := by
  by_cases hle : items.keys.length ≤ maxSessionItems
  · rw [evict_of_le order hle]
    exact ⟨h, hle, rfl, fun _ hid => hid⟩
  · have hover : items.keys.length = maxSessionItems + 1 := by omega
    have horder := h.length_eq
    cases order with
    | nil =>
      rw [hover] at horder
      cases horder
    | cons oldest rest =>
      have hmem : oldest ∈ items := (h.mem oldest).mp mem_cons_self
      have hrest : rest ≠ [] := by
        intro hnil
        rw [hnil, hover, length_singleton] at horder
        exact absurd horder (by decide)
      rw [evict_of_over rest hover hmem]
      refine ⟨?_, ?_, ?_, ?_⟩
      · have herase := h.erase oldest
        rwa [erase_cons_head] at herase
      · have := keys_length_erase items hmem
        show (items.erase oldest).keys.length ≤ maxSessionItems
        omega
      · rw [getLast?_cons_of_ne_nil hrest]
      · intro id hid
        exact (mem_erase.mp hid).2

/-- Adding an id to the end of the order does not change what is evicted. -/
theorem evict_append (hlen : items.keys.length ≤ maxSessionItems + 1)
    (hne : maxSessionItems < items.keys.length → order ≠ []) (hmem : ∀ id ∈ order, id ∈ items)
    (id : String) :
    evict items (order ++ [id]) = ((evict items order).1, (evict items order).2 ++ [id]) := by
  by_cases hle : items.keys.length ≤ maxSessionItems
  · rw [evict_of_le _ hle, evict_of_le _ hle]
  · have hover : items.keys.length = maxSessionItems + 1 := by omega
    cases order with
    | nil => exact absurd rfl (hne (by omega))
    | cons oldest rest =>
      have ho := hmem oldest mem_cons_self
      rw [cons_append, evict_of_over _ hover ho, evict_of_over _ hover ho]

namespace Session

theorem insertAt_perm (order : List String) (after id : String) :
    (insertAt order after id).Perm (id :: order) := by
  unfold insertAt
  split
  · exact perm_append_singleton id order
  · split
    · exact List.Perm.refl _
    · split
      next i hi =>
        obtain ⟨hlt, -⟩ := findIdx?_eq_some_iff_getElem.mp hi
        exact perm_insertIdx id order hlt
      · exact perm_append_singleton id order

/-! ## The index of a session -/

/-- The order lists the items, its last id is the tail, and the cap is kept. -/
structure Indexed (s : Session F) : Prop where
  lists : Lists s.itemOrder s.items
  last : s.lastItemID = s.itemOrder.getLast?.getD ""
  named : "" ∉ s.items
  bound : s.items.keys.length ≤ maxSessionItems

variable {s : Session F} {item : ItemRef}

theorem Indexed.previous (h : s.Indexed) (hid : s.previousItemID = some id) : id ∈ s.items := by
  unfold previousItemID at hid
  split at hid
  · cases hid
  next hne =>
    obtain rfl : s.lastItemID = id := by simpa using hid
    rw [h.last] at hne ⊢
    cases hl : s.itemOrder.getLast? with
    | none => simp [hl] at hne
    | some id' => exact (h.lists.mem id').mp (mem_of_getLast? hl)

/-- `Indexed` reads only the index. -/
theorem Indexed.congr {s' : Session F} (h : s.Indexed) (hi : s'.items = s.items)
    (ho : s'.itemOrder = s.itemOrder) (hl : s'.lastItemID = s.lastItemID) : s'.Indexed := by
  constructor
  · rw [hi, ho]
    exact h.lists
  · rw [hl, ho]
    exact h.last
  · rw [hi]
    exact h.named
  · rw [hi]
    exact h.bound

theorem rememberItem_eq (s : Session F) (hne : item.id ≠ "") :
    s.rememberItem item = { s with
      items := (evict (s.items.insert item.id item.loc) s.itemOrder).1
      itemOrder := (evict (s.items.insert item.id item.loc) s.itemOrder).2
      history := lastN maxSessionHistory s.history } := by
  rw [rememberItem, if_pos hne]
  rfl

theorem rememberItem_indexed (hne : item.id ≠ "")
    (hlists : Lists s.itemOrder (s.items.insert item.id item.loc))
    (hlast : s.lastItemID = s.itemOrder.getLast?.getD "") (hnamed : "" ∉ s.items)
    (hbound : s.items.keys.length ≤ maxSessionItems) :
    (s.rememberItem item).Indexed ∧
      ∀ id ∈ (s.rememberItem item).items, id = item.id ∨ id ∈ s.items := by
  have hlen : (s.items.insert item.id item.loc).keys.length ≤ maxSessionItems + 1 := by
    by_cases hmem : item.id ∈ s.items
    · rw [keys_length_insert_mem s.items hmem]
      omega
    · rw [keys_length_insert s.items hmem]
      omega
  obtain ⟨hl, hb, hlast', hsub⟩ := hlists.evict hlen
  have hmem : ∀ id ∈ (evict (s.items.insert item.id item.loc) s.itemOrder).1,
      id = item.id ∨ id ∈ s.items := fun id hid => (mem_insert s.items).mp (hsub id hid)
  rw [rememberItem_eq s hne]
  refine ⟨⟨hl, ?_, ?_, hb⟩, hmem⟩
  · rw [← hlast'] at hlast
    exact hlast
  · intro h
    rcases hmem "" h with h | h
    · exact hne h.symm
    · exact hnamed h

theorem Indexed.remember (h : s.Indexed) (hmem : item.id ∈ s.items) :
    (s.rememberItem item).Indexed ∧ ∀ id, id ∈ (s.rememberItem item).items ↔ id ∈ s.items := by
  have hne : item.id ≠ "" := fun h' => h.named (h' ▸ hmem)
  have hiff : ∀ id, id ∈ s.items.insert item.id item.loc ↔ id ∈ s.items := by
    intro id
    rw [mem_insert]
    constructor
    · rintro (rfl | h')
      · exact hmem
      · exact h'
    · exact .inr
  have hlists : Lists s.itemOrder (s.items.insert item.id item.loc) :=
    ⟨h.lists.nodup, fun id => (h.lists.mem id).trans (hiff id).symm⟩
  refine ⟨(rememberItem_indexed hne hlists h.last h.named h.bound).1, ?_⟩
  intro id
  have hitems : (s.rememberItem item).items = s.items.insert item.id item.loc := by
    rw [rememberItem_eq s hne, evict_of_le _ (by rw [keys_length_insert_mem s.items hmem]; exact h.bound)]
  rw [hitems, hiff]

theorem Indexed.tail (h : s.Indexed) (hne : item.id ≠ "") (hnew : item.id ∉ s.items) :
    ((s.joinTail item.id).rememberItem item).Indexed ∧
      ∀ id ∈ ((s.joinTail item.id).rememberItem item).items, id = item.id ∨ id ∈ s.items := by
  apply rememberItem_indexed hne
  · exact (h.lists.insert hnew item.loc).perm (perm_append_singleton item.id s.itemOrder)
  · simp [joinTail]
  · exact h.named
  · exact h.bound

theorem Indexed.remove (h : s.Indexed) (hmem : id ∈ s.items) :
    (removeItem { s with items := s.items.erase id } id).Indexed := by
  refine ⟨h.lists.erase id, rfl, ?_, ?_⟩
  · intro hn
    exact h.named (mem_erase.mp hn).2
  · have := keys_length_erase s.items hmem
    have hb := h.bound
    show (s.items.erase id).keys.length ≤ maxSessionItems
    omega

/-- The item joins as if it had been listed before it was remembered: the oldest
item goes either way. -/
theorem joinEmittedItem_eq (h : s.Indexed) (hne : item.id ≠ "") :
    s.joinEmittedItem item = (s.joinTail item.id).rememberItem item := by
  have hev := @evict_append (s.items.insert item.id item.loc) s.itemOrder ?_ ?_ ?_ item.id
  · simp only [joinEmittedItem, rememberItem_eq _ hne, joinTail, hev, ne_eq, hne, not_false_eq_true,
      if_true]
  · have hb := h.bound
    by_cases hmem : item.id ∈ s.items
    · rw [keys_length_insert_mem s.items hmem]
      omega
    · rw [keys_length_insert s.items hmem]
      omega
  · intro hlt hnil
    have hlen := h.lists.length_eq
    rw [hnil] at hlen
    have : (s.items.insert item.id item.loc).keys.length ≤ 1 := by
      rw [keys_insert, length_cons]
      have := @List.length_erase_le _ _ item.id s.items.keys
      simp only [length_nil] at hlen
      omega
    have hcap : maxSessionItems = 4096 := rfl
    omega
  · intro id hid
    exact (mem_insert s.items).mpr (.inr ((h.lists.mem id).mp hid))

theorem Indexed.mem_join (h : s.Indexed) (hne : item.id ≠ "") (hnew : item.id ∉ s.items) :
    item.id ∈ (s.joinEmittedItem item).items := by
  have hidx := (h.tail hne hnew).1
  rw [← joinEmittedItem_eq h hne] at hidx
  apply (hidx.lists.mem item.id).mp
  unfold joinEmittedItem
  rw [if_pos hne]
  simp [joinTail]

end Session

end MockAgents.Realtime
