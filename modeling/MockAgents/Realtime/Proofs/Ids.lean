import MockAgents.Realtime.Session
/-!
# Minted ids

`nextID` never repeats an id and never returns one that is an item's.
-/

namespace MockAgents.Realtime

open List

variable {F : Type}

/-- What a session sends, before its items are looked up. -/
abbrev Events (F : Type) := List (Event F ItemRef)

/-- The events and the session that a step returns stand in the relation. -/
abbrev Gives (R : Events F → Session F → Prop) (r : Session F × Events F) : Prop := R r.2 r.1

theorem IDKind.text_head (k k' : IDKind) (u u' : String) (h : k.text ++ u = k'.text ++ u') :
    k = k' := by
  have hhead : (k.text.toList ++ u.toList).head? = (k'.text.toList ++ u'.toList).head? := by
    rw [← String.toList_append, ← String.toList_append, h]
  cases k <;> cases k' <;> first
    | rfl
    | exact absurd hhead (by simp [IDKind.text])

theorem mintID_inj {k k' : IDKind} {sess : String} {n n' : Nat}
    (h : mintID k sess n = mintID k' sess n') : k = k' ∧ n = n' := by
  have hk : k = k' := by
    apply IDKind.text_head k k' ("_" ++ sess ++ "_" ++ toString n) ("_" ++ sess ++ "_" ++ toString n')
    simpa [mintID, String.append_assoc] using h
  subst hk
  refine ⟨rfl, ?_⟩
  rw [mintID, mintID, String.append_right_inj] at h
  exact Nat.repr_inj.mp h

theorem mintID_ne_empty (k : IDKind) (sess : String) (n : Nat) : mintID k sess n ≠ "" := by
  intro h
  have := congrArg (fun s => s.toList.head?) h
  cases k <;> simp [mintID, IDKind.text] at this

theorem nextCount_spec (taken : String → Bool) (k : IDKind) (sess : String) (fuel n : Nat) :
    n < nextCount taken k sess fuel n ∧
      (∀ m, n < m → m < nextCount taken k sess fuel n → taken (mintID k sess m)) ∧
      (taken (mintID k sess (nextCount taken k sess fuel n)) →
        nextCount taken k sess fuel n = n + fuel + 1) := by
  induction fuel generalizing n with
  | zero =>
    refine ⟨Nat.lt_succ_self n, ?_, fun _ => rfl⟩
    intro m hlt hm
    simp only [nextCount] at hm
    omega
  | succ fuel ih =>
    rw [nextCount]
    by_cases ht : taken (mintID k sess (n + 1)) = true
    · rw [if_pos ht]
      obtain ⟨hlt, hskip, hlast⟩ := ih (n + 1)
      refine ⟨by omega, ?_, fun h => by rw [hlast h]; omega⟩
      intro m hm hmn
      by_cases heq : m = n + 1
      · exact heq ▸ ht
      · exact hskip m (by omega) hmn
    · rw [if_neg ht]
      exact ⟨Nat.lt_succ_self n, fun m hm hmn => by omega, fun h => absurd h ht⟩

namespace Session

def Minted (s : Session F) (id : String) : Prop :=
  ∃ k n, n ≤ s.counter ∧ id = mintID k s.id n

theorem nextID_lt (s : Session F) (k : IDKind) : s.counter < (s.nextID k).1.counter :=
  (nextCount_spec _ k s.id _ s.counter).1

theorem nextID_ne_empty (s : Session F) (k : IDKind) : (s.nextID k).2 ≠ "" :=
  mintID_ne_empty k s.id _

/-- The session has too few items to take every id the loop tries. -/
theorem nextID_fresh (s : Session F) (k : IDKind) : (s.nextID k).2 ∉ s.items := by
  intro hmem
  let n := s.counter
  let fuel := s.items.keys.length + 1
  obtain ⟨_, hskip, hlast⟩ :=
    nextCount_spec (fun id => (s.items.lookup id).isSome) k s.id fuel n
  have heq := hlast (AList.lookup_isSome.mpr hmem)
  let ids := (range' (n + 1) (fuel + 1)).map (mintID k s.id)
  have hsub : ids ⊆ s.items.keys := by
    intro id hid
    obtain ⟨m, hm, rfl⟩ := mem_map.mp hid
    rw [mem_range'_1] at hm
    rw [← AList.mem_keys]
    by_cases hlt : m < nextCount (fun id => (s.items.lookup id).isSome) k s.id fuel n
    · exact AList.lookup_isSome.mp (hskip m (by omega) hlt)
    · have hmeq : m = nextCount (fun id => (s.items.lookup id).isSome) k s.id fuel n := by omega
      rw [hmeq]
      exact hmem
  have hnodup : ids.Nodup := by
    apply Nodup.map_on _ (nodup_range' ..)
    intro a _ b _ hab
    exact (mintID_inj hab).2
  have hlen := (hnodup.subperm hsub).length_le
  simp only [ids, fuel, length_map, length_range'] at hlen
  omega

theorem nextID_ne_minted (s : Session F) (k : IDKind) {id : String} (h : s.Minted id) :
    (s.nextID k).2 ≠ id := by
  obtain ⟨k', n, hn, rfl⟩ := h
  intro heq
  have heq' : (s.nextID k).1.counter = n := (mintID_inj heq).2
  have hlt := s.nextID_lt k
  omega

theorem Minted.mono {s s' : Session F} (hid : s'.id = s.id) (hc : s.counter ≤ s'.counter)
    {id : String} (h : s.Minted id) : s'.Minted id := by
  obtain ⟨k, n, hn, rfl⟩ := h
  exact ⟨k, n, hn.trans hc, by rw [hid]⟩

theorem nextID_minted (s : Session F) (k : IDKind) : (s.nextID k).1.Minted (s.nextID k).2 :=
  ⟨k, _, le_rfl, rfl⟩

end Session

end MockAgents.Realtime
