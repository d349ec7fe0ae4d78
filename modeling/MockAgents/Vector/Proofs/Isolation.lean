import MockAgents.Vector.Adapters
import MockAgents.Lib.Keys
/-!
# Isolation of vector collections

Keys are joined with the bytes 0, 1 and 2.  They tell addresses apart as long as the coordinates
do not hold the separators, a creation keeps its key as long as trimming does, and the listing of an
anonymous caller is right as long as no tenant's key ends like the database that is listed.
-/

namespace MockAgents.Vector

open Lib Lib.Utf8 List AList Option Place Keys Store Strings

/-! ## Plain addresses -/

def Place.text : Place → Bytes
  | .base name => name
  | .space index ns => index ++ 1 :: ns
  | .database tenant db name => name ++ 2 :: (tenant ++ 2 :: db)

def Place.Plain : Place → Prop
  | .base name => 0 ∉ name ∧ 1 ∉ name ∧ 2 ∉ name
  | .space index ns => ns ≠ [] ∧ 1 ∉ index ∧ (index ++ ns).count 2 ≤ 1
  | .database tenant db name => databaseSuffix tenant db ≠ [] ∧ 2 ∉ name ∧ 2 ∉ tenant ∧ 2 ∉ db

structure Address.Plain (a : Address) : Prop where
  caller : 0 ∉ a.caller
  anonymous : a.caller = [] → 0 ∉ a.place.text
  place : a.place.Plain
variable {tenant database : Bytes}

theorem databaseSuffix_of_ne (h : databaseSuffix tenant database ≠ []) :
    databaseSuffix tenant database = 2 :: (tenant ++ 2 :: database) := by
  unfold databaseSuffix at h ⊢
  split
  · exact absurd (if_pos ‹_›) h
  · rfl

theorem scoped_append (caller name rest : Bytes) :
    scopedCollectionName caller name ++ rest = scopedCollectionName caller (name ++ rest) := by
  unfold scopedCollectionName
  split
  · rfl
  · rw [append_assoc, cons_append]
variable {a : Address}

theorem Address.key_eq (h : a.place.Plain) :
    a.key = scopedCollectionName a.caller a.place.text := by
  obtain ⟨caller, place⟩ := a
  cases place with
  | base name => rfl
  | space index ns => exact scoped_append _ _ _
  | database tenant database name =>
    change scopedCollectionName caller name ++ databaseSuffix tenant database = _
    rw [databaseSuffix_of_ne h.1]
    exact scoped_append _ _ _

theorem key_chroma (caller tenant database name : Bytes) :
    (⟨caller, chromaPlace tenant database name⟩ : Address).key = keyFor caller tenant database name := by
  unfold chromaPlace
  split
  next h =>
    rw [keyFor, databaseSuffix, if_pos h, append_nil]
    rfl
  next => rfl

theorem count_space (index ns : Bytes) : (index ++ 1 :: ns).count 2 = (index ++ ns).count 2 := by
  rw [count_append, count_append, count_cons_of_ne (by decide)]
variable {name : Bytes}

theorem count_database :
    (name ++ 2 :: (tenant ++ 2 :: database)).count 2 = name.count 2 + tenant.count 2 + database.count 2 + 2 := by
  rw [count_append, count_cons_self, count_append, count_cons_self]
  omega
variable {x y : Bytes}

theorem mem_of_eq_join {sep : UInt8} {z : Bytes} (h : z = x ++ sep :: y) : sep ∈ z :=
  h ▸ mem_append_right _ mem_cons_self
variable {p : Place}

theorem Place.text_inj {q : Place} (hp : p.Plain) (hq : q.Plain) (h : p.text = q.text) : p = q := by
  have hcount := congrArg (List.count 2) h
  cases p with
  | base name =>
    cases q with
    | base name' => exact congrArg base h
    | space index ns => exact absurd (mem_of_eq_join h) hp.2.1
    | database t d name' => exact absurd (mem_of_eq_join h) hp.2.2
  | space index ns =>
    cases q with
    | base name' => exact absurd (mem_of_eq_join h.symm) hq.2.1
    | space index' ns' =>
      obtain ⟨rfl, rfl⟩ := first_inj hp.2.1 hq.2.1 h
      rfl
    | database t d name' =>
      rw [text, text, count_space, count_database] at hcount
      exact absurd hp.2.2 (by omega)
  | database t d name =>
    cases q with
    | base name' => exact absurd (mem_of_eq_join h.symm) hq.2.2
    | space index ns =>
      rw [text, text, count_space, count_database] at hcount
      exact absurd hq.2.2 (by omega)
    | database t' d' name' =>
      obtain ⟨rfl, hrest⟩ := first_inj hp.2.1 hq.2.1 h
      obtain ⟨rfl, rfl⟩ := first_inj hp.2.2.1 hq.2.2.1 hrest
      rfl

variable {caller : Bytes}

/-- Callers without the separator are told apart before their coordinates. -/
theorem scoped_inj {caller' text text' : Bytes} (hc : 0 ∉ caller) (hc' : 0 ∉ caller')
    (ht : caller = [] → 0 ∉ text) (ht' : caller' = [] → 0 ∉ text')
    (h : scopedCollectionName caller text = scopedCollectionName caller' text') :
    caller = caller' ∧ text = text' := by
  unfold scopedCollectionName at h
  split at h
  next hnil =>
    split at h
    next hnil' => exact ⟨hnil.trans hnil'.symm, h⟩
    next => exact absurd (mem_of_eq_join h) (ht hnil)
  next =>
    split at h
    next hnil' => exact absurd (mem_of_eq_join h.symm) (ht' hnil')
    next => exact first_inj hc hc' h

theorem Address.key_inj {b : Address} (ha : a.Plain) (hb : b.Plain) (h : a.key = b.key) : a = b := by
  rw [key_eq ha.place, key_eq hb.place] at h
  obtain ⟨hcaller, htext⟩ := scoped_inj ha.caller hb.caller ha.anonymous hb.anonymous h
  exact congrArg₂ Address.mk hcaller (text_inj ha.place hb.place htext)

/-! ## What one request does -/

variable {V M : Type} {finite : V → Bool} {s s' s'' : Store V M} {k : Bytes} {o : Outcome}
variable {c : Collection V M} {dimension : Int} {metric : Metric} {points : List (Point V M)}
variable {ns index : Bytes}

/-- Only the collection at the key is created, deleted or written. -/
structure Effect (k : Bytes) (s s' : Store V M) (o : Outcome) : Prop where
  frame : ∀ k', k' ≠ k → s'.collections.lookup k' = s.collections.lookup k'
  here : (s'.collections.lookup k).isSome = o.after (s.collections.lookup k).isSome

theorem Effect.refl (k : Bytes) (s : Store V M) : Effect k s s .neither := ⟨fun _ _ => rfl, rfl⟩

theorem Effect.trans (h : Effect k s s' o) (h' : Effect k s' s'' .neither) : Effect k s s'' o :=
  ⟨fun k' hne => (h'.frame k' hne).trans (h.frame k' hne), h'.here.trans h.here⟩

theorem Effect.outcome {r : Except Err (Store V M)} (h : ∀ s', r = .ok s' → Effect k s s' o) :
    Effect k s (Vector.outcome s o r).1 (Vector.outcome s o r).2 := by
  cases r with
  | error err => exact .refl k s
  | ok s' => exact h s' rfl

theorem collection_ok : s.collection k = .ok c ↔ s.collections.lookup k = some c := by
  unfold collection
  split
  next h => rw [h]; exact ⟨nofun, nofun⟩
  next c' h => rw [h, Except.ok.injEq, some.injEq]

theorem Effect.put (h : s.collection k = .ok c) (c' : Collection V M) :
    Effect k s ⟨s.collections.insert k c'⟩ .neither := by
  refine ⟨fun k' hne => lookup_insert_ne hne, ?_⟩
  rw [lookup_insert, collection_ok.mp h]
  rfl

/-- A creation is refused for its arguments, or goes on to add its collection. -/
def Adds (s : Store V M) (k : Bytes) (r : Except Err (Store V M)) : Prop :=
  (∃ err, r = .error err ∧ ∀ name, err ≠ .collectionExists name) ∨ ∃ c, r = s.addCollection k c

theorem create_adds (hk : trimSpace k = k) : Adds s k (s.createCollection k dimension metric) := by
  rw [createCollection, hk]
  split
  · exact .inl ⟨_, rfl, nofun⟩
  · split
    · exact .inl ⟨_, rfl, nofun⟩
    · exact .inr ⟨_, rfl⟩

theorem createPending_adds (hk : trimSpace k = k) : Adds s k (s.createPendingCollection k metric) := by
  rw [createPendingCollection, hk]
  split
  · exact .inl ⟨_, rfl, nofun⟩
  · exact .inr ⟨_, rfl⟩

theorem Adds.effect (h : Adds s k (.ok s')) : Effect k s s' .created := by
  obtain ⟨_, h, -⟩ | ⟨c, h⟩ := h
  · cases h
  unfold addCollection at h
  split at h
  · cases h
  · obtain rfl := Except.ok.inj h
    refine ⟨fun k' hne => lookup_insert_ne hne, ?_⟩
    rw [lookup_insert]
    rfl

theorem Adds.present (h : Adds s k (.error (.collectionExists name))) :
    (s.collections.lookup k).isSome = true := by
  obtain ⟨_, h, hne⟩ | ⟨c, h⟩ := h
  · exact absurd (Except.error.inj h).symm (hne name)
  unfold addCollection at h
  split at h
  · assumption
  · cases h

/-- The bind of a lookup and a change of what was found. -/
theorem bind_collection {f : Collection V M → Except Err (Store V M)}
    (h : (s.collection k >>= f) = .ok s') : ∃ c, s.collection k = .ok c ∧ f c = .ok s' := by
  cases hc : s.collection k with
  | error err => rw [hc] at h; cases h
  | ok c => rw [hc] at h; exact ⟨c, rfl, h⟩

theorem Effect.deleteCollection (h : s.deleteCollection k = .ok s') : Effect k s s' .deleted := by
  obtain ⟨c, -, h⟩ := bind_collection h
  obtain rfl := Except.ok.inj h
  exact ⟨fun k' hne => lookup_erase_ne hne, by rw [lookup_erase]; rfl⟩

theorem Effect.upsert (h : s.upsert finite k points = .ok s') : Effect k s s' .neither := by
  obtain ⟨c, hc, h⟩ := bind_collection h
  cases hwant : targetDimension c points with
  | error err => rw [hwant] at h; cases h
  | ok want =>
    rw [hwant] at h
    cases hchecked : points.zipIdx.mapM fun p => checkPoint finite want p.2 p.1 with
    | error err => simp only [bind, Except.bind, hchecked] at h; cases h
    | ok checked =>
      simp only [bind, Except.bind, hchecked] at h
      split at h
      · cases h
      · obtain rfl := Except.ok.inj h
        exact .put hc _

theorem Effect.delete {ids : List Bytes} (h : s.delete k ids = .ok s') : Effect k s s' .neither := by
  obtain ⟨c, hc, h⟩ := bind_collection h
  obtain rfl := Except.ok.inj h
  exact .put hc _

theorem Effect.deleteAll (h : s.deleteAll k = .ok s') : Effect k s s' .neither := by
  obtain ⟨c, hc, h⟩ := bind_collection h
  obtain rfl := Except.ok.inj h
  exact .put hc _

theorem Effect.namespaceKey {key : Bytes} {create : Bool}
    (hk : create = true → ns ≠ [] → trimSpace k = k)
    (hplace : k = (⟨caller, pineconePlace index ns⟩ : Address).key)
    (h : Vector.namespaceKey s caller index ns create = .ok (key, s')) :
    key = k ∧ Effect k s s' (if ns = [] then .neither else .created) ∧ (create = false → s' = s) := by
  unfold Vector.namespaceKey at h
  unfold pineconePlace at hplace
  dsimp only at h
  by_cases hns : ns = []
  · rw [if_pos hns] at h hplace ⊢
    obtain ⟨rfl, rfl⟩ := Prod.mk.inj (Except.ok.inj h)
    exact ⟨hplace.symm, .refl _ _, fun _ => rfl⟩
  rw [if_neg hns] at h hplace ⊢
  rw [show scopedCollectionName caller index ++ 1 :: ns = k from hplace.symm] at h
  split at h
  next c hc =>
    obtain ⟨rfl, rfl⟩ := Prod.mk.inj (Except.ok.inj h)
    refine ⟨rfl, ⟨fun _ _ => rfl, ?_⟩, fun _ => rfl⟩
    rw [collection_ok.mp hc]
    rfl
  next =>
    cases create with
    | false => cases h
    | true =>
      cases hbase : s.collection (scopedCollectionName caller index) with
      | error err => simp only [hbase] at h; cases h
      | ok cfg =>
        simp only [hbase, Bool.not_true, Bool.false_eq_true, if_false, bind, Except.bind] at h
        split at h
        next s₁ hcreate =>
          obtain ⟨rfl, rfl⟩ := Prod.mk.inj (Except.ok.inj h)
          exact ⟨rfl, Adds.effect (hcreate ▸ create_adds (hk rfl hns)), nofun⟩
        next name hexists =>
          obtain ⟨rfl, rfl⟩ := Prod.mk.inj (Except.ok.inj h)
          exact ⟨rfl, ⟨fun _ _ => rfl, Adds.present (hexists ▸ create_adds (hk rfl hns))⟩, fun _ => rfl⟩
        next => cases h

def Request.creates : Request V M → Prop
  | .qdrantCreate _ _ _ | .chromaCreate _ _ _ _ _ => True
  | .pineconeUpsert _ ns _ => ns ≠ []
  | _ => False

/-- The coordinates hold no separator, and trimming leaves the key of a creation as it is. -/
structure Call.Clear (c : Call V M) : Prop where
  plain : c.address.Plain
  trimmed : c.request.creates → Strings.trimSpace c.address.key = c.address.key

theorem Effect.chromaCreate {getOrCreate : Bool} {metric : Option Metric}
    (hk : trimSpace (keyFor caller tenant database name) = keyFor caller tenant database name) :
    Effect (keyFor caller tenant database name) s
      (chromaCreateCollection s caller tenant database name getOrCreate metric).1
      (chromaCreateCollection s caller tenant database name getOrCreate metric).2 := by
  unfold chromaCreateCollection
  split
  · exact .refl _ s
  · cases metric with
    | none => exact .refl _ s
    | some metric =>
      dsimp only
      split
      next name' hexists =>
        cases getOrCreate with
        | false => exact .refl _ s
        | true => exact ⟨fun _ _ => rfl, Adds.present (hexists ▸ createPending_adds hk)⟩
      next => exact .outcome fun s' h => Adds.effect (h ▸ createPending_adds hk)

theorem Effect.chromaWrite {upsert : Bool} :
    Effect k s (Vector.chromaWrite finite s k upsert points).1 (Vector.chromaWrite finite s k upsert points).2 := by
  unfold Vector.chromaWrite
  split
  · exact .refl k s
  · split
    · exact .refl k s
    · split
      · exact .refl k s
      · exact .outcome fun s' h => .upsert h

theorem Effect.pineconeUpsert (hplace : k = (⟨caller, pineconePlace index ns⟩ : Address).key)
    (hk : ns ≠ [] → trimSpace k = k) :
    Effect k s (Vector.pineconeUpsert finite s caller index ns points).1
      (Vector.pineconeUpsert finite s caller index ns points).2 := by
  unfold Vector.pineconeUpsert
  split
  · exact .refl k s
  · split
    · exact .refl k s
    next key s' hkey =>
      obtain ⟨rfl, heffect, -⟩ := Effect.namespaceKey (fun _ => hk) hplace hkey
      dsimp only
      split
      · exact heffect
      · refine heffect.trans ?_
        cases hup : s'.upsert finite key (stored points) with
        | error err => exact .refl key s'
        | ok s'' => exact .upsert hup

/-- Every request works on the key of its address alone. -/
theorem serve_effect (finite : V → Bool) (s : Store V M) {c : Call V M} (hc : c.Clear) :
    Effect c.address.key s (serve finite c s).1 (serve finite c s).2 := by
  obtain ⟨caller, request⟩ := c
  have hchroma := key_chroma caller
  cases request with
  | qdrantCreate collection size metric =>
    cases metric with
    | none => exact .refl _ s
    | some metric => exact .outcome fun s' h => Adds.effect (h ▸ create_adds (hc.trimmed trivial))
  | qdrantDelete collection => exact .outcome fun s' h => .deleteCollection h
  | qdrantUpsert collection points => exact .outcome fun s' h => .upsert h
  | qdrantDeletePoints collection ids => exact .outcome fun s' h => .delete h
  | chromaCreate tenant database name getOrCreate metric =>
    have hk := hc.trimmed trivial
    simp only [Call.address, Request.place, hchroma] at hk ⊢
    exact .chromaCreate hk
  | chromaDelete tenant database collection =>
    simp only [Call.address, Request.place, hchroma]
    exact .outcome fun s' h => .deleteCollection h
  | chromaWrite tenant database collection upsert points =>
    simp only [Call.address, Request.place, hchroma]
    exact .chromaWrite
  | chromaDeletePoints tenant database collection ids =>
    simp only [Call.address, Request.place, hchroma, serve]
    split
    · exact .refl _ s
    · exact .outcome fun s' h => .delete h
  | pineconeUpsert index ns points => exact .pineconeUpsert rfl hc.trimmed
  | pineconeDelete index ns all ids =>
    simp only [serve]
    split
    · exact .refl _ s
    next key s' hkey =>
      obtain ⟨rfl, -, hsame⟩ := Effect.namespaceKey (fun hcreate => Bool.noConfusion hcreate) rfl hkey
      obtain rfl := hsame rfl
      refine .outcome fun s' h => ?_
      split at h
      · exact .deleteAll h
      · exact .delete h

/-! ## Runs -/

theorem live_append (events : List (Address × Outcome)) (e : Address × Outcome) (a : Address) :
    live (events ++ [e]) a = if e.1 = a then e.2.after (live events a) else live events a := by
  rw [live, foldl_append]
  rfl

/-- The collections are those of the live addresses. -/
structure World.Inv (w : World V M) : Prop where
  resolves : ∀ a : Address, a.Plain → (w.store.collections.lookup a.key).isSome = live w.events a
  plain : ∀ a, live w.events a = true → a.Plain
  named : ∀ k, (w.store.collections.lookup k).isSome = true → ∃ a : Address, a.Plain ∧ a.key = k

theorem World.Inv.start : (World.start : World V M).Inv where
  resolves a _ := by simp [World.start, Store.empty, live]
  plain a h := by cases h
  named k h := by simp [World.start, Store.empty] at h

theorem World.Inv.step {w : World V M} (h : w.Inv) {c : Call V M} (hc : c.Clear) : (w.step finite c).Inv := by
  have heffect := serve_effect finite w.store hc
  refine ⟨fun a ha => ?_, fun a ha => ?_, fun k hk => ?_⟩
  · rw [World.step, live_append]
    split
    next heq =>
      subst heq
      rw [heffect.here, h.resolves _ ha]
    next hne =>
      rw [heffect.frame _ fun hkey => hne (Address.key_inj ha hc.plain hkey).symm, h.resolves a ha]
  · rw [World.step, live_append] at ha
    split at ha
    next heq => exact heq ▸ hc.plain
    next => exact h.plain a ha
  · by_cases heq : k = c.address.key
    · exact ⟨c.address, hc.plain, heq.symm⟩
    · rw [World.step, heffect.frame k heq] at hk
      exact h.named k hk

theorem run_inv (finite : V → Bool) {calls : List (Call V M)} (hcalls : ∀ c ∈ calls, c.Clear) : (run finite calls).Inv :=
  foldlRecOn calls _ World.Inv.start fun _ hw c hc => hw.step (hcalls c hc)

/-! ## The listing of Chroma -/

/-- No tenant has a collection whose key ends like the database an anonymous caller lists. -/
def Unshared (w : World V M) (caller tenant database : Bytes) : Prop :=
  caller = [] → databaseSuffix tenant database ≠ [] →
    ∀ a, live w.events a = true → a.caller ≠ [] → ¬ databaseSuffix tenant database <:+ a.key

theorem isSuffixOf_iff : x.isSuffixOf y = true ↔ ∃ z, z ++ x = y := by
  rw [isSuffixOf_iff_suffix]
  rfl

/-- A plain place is listed under the name it has in the database, and in no other database. -/
theorem databaseName_iff (hp : p.Plain) (tenant database n : Bytes) :
    databaseName tenant database p.text = some n ↔ p = chromaPlace tenant database n := by
  by_cases hsuffix : databaseSuffix tenant database = []
  · have hdefault : tenant = defaultTenant ∧ database = defaultDatabase := by
      by_contra hne
      rw [databaseSuffix, if_neg hne] at hsuffix
      cases hsuffix
    rw [chromaPlace, if_pos hdefault]
    simp only [databaseName, hsuffix, if_true]
    cases p with
    | base name =>
      have hnone : ([0, 1, 2].any fun b => (base name).text.contains b) = false := by
        simpa [text, Plain] using hp
      rw [hnone, if_neg Bool.false_ne_true, some.injEq, base.injEq]
      rfl
    | space index ns =>
      rw [if_pos (by simp [text])]
      exact ⟨nofun, nofun⟩
    | database t d name =>
      rw [if_pos (by simp [text])]
      exact ⟨nofun, nofun⟩
  · have hne : ¬ (tenant = defaultTenant ∧ database = defaultDatabase) :=
      fun hdefault => hsuffix (if_pos hdefault)
    rw [chromaPlace, if_neg hne]
    simp only [databaseName, hsuffix, if_false]
    have hjoin := databaseSuffix_of_ne hsuffix
    constructor
    · intro h
      split at h
      next hends =>
        obtain ⟨z, hz⟩ := isSuffixOf_iff.mp hends
        rw [← hz, length_append, Nat.add_sub_cancel, take_left, some.injEq] at h
        subst h
        rw [hjoin] at hz
        have hcount := congrArg (List.count 2) hz
        rw [count_database] at hcount
        cases p with
        | base name =>
          rw [text, count_eq_zero.mpr hp.2.2] at hcount
          cases hcount
        | space index ns =>
          rw [text, count_space] at hcount
          exact absurd hp.2.2 (by omega)
        | database t d name =>
          rw [text, count_database, count_eq_zero.mpr hp.2.1, count_eq_zero.mpr hp.2.2.1,
            count_eq_zero.mpr hp.2.2.2] at hcount
          obtain ⟨rfl, hrest⟩ := first_inj (count_eq_zero.mp (by omega)) hp.2.1 hz
          obtain ⟨rfl, rfl⟩ := first_inj (count_eq_zero.mp (by omega)) hp.2.2.1 hrest
          rfl
      next => cases h
    · rintro rfl
      rw [hjoin, text, if_pos (isSuffixOf_iff.mpr ⟨n, rfl⟩), length_append, Nat.add_sub_cancel,
        take_left]

theorem listedName_iff (ha : a.Plain) (hcaller : 0 ∉ caller)
    (hshared : caller = [] → databaseSuffix tenant database ≠ [] → a.caller ≠ [] →
      ¬ databaseSuffix tenant database <:+ a.key) (n : Bytes) :
    listedName caller tenant database a.key = some n ↔ a = ⟨caller, chromaPlace tenant database n⟩ := by
  have hkey := a.key_eq ha.place
  have hplace := databaseName_iff ha.place tenant database n
  by_cases hsame : a.caller = caller
  · -- The caller's part is there, and what follows is the text of the place.
    have hentry : listedName caller tenant database a.key = databaseName tenant database a.place.text := by
      rw [hkey, hsame, listedName, scopedCollectionName, trimPrefix]
      by_cases hnil : caller = []
      · simp [hnil]
      · have hstart : (caller ++ [0]).isPrefixOf (caller ++ 0 :: a.place.text) = true :=
          isPrefixOf_iff_prefix.mpr ⟨a.place.text, by simp⟩
        simp [hnil, hstart]
    rw [hentry, hplace]
    obtain ⟨caller', place⟩ := a
    subst hsame
    simp
  · refine ⟨fun h => absurd h ?_, fun h => absurd (h ▸ rfl) hsame⟩
    by_cases hnil : caller = []
    · have hne : a.caller ≠ [] := fun h => hsame (h.trans hnil.symm)
      have hmem : 0 ∈ a.key := by
        rw [hkey, scopedCollectionName, if_neg hne]
        exact mem_append_right _ mem_cons_self
      have hnot := hshared hnil
      simp only [listedName, hnil, databaseName, trimPrefix]
      by_cases hsuffix : databaseSuffix tenant database = []
      · simp [hsuffix, hmem]
      · have := hnot hsuffix hne
        simp [hsuffix, this]
    · have hstart : (caller ++ [0]).isPrefixOf a.key = false := by
        rw [Bool.eq_false_iff]
        intro hstart
        obtain ⟨rest, hrest⟩ := isPrefixOf_iff_prefix.mp hstart
        rw [append_assoc, singleton_append, hkey] at hrest
        have heq : scopedCollectionName caller rest = scopedCollectionName a.caller a.place.text := by
          rw [← hrest, scopedCollectionName, if_neg hnil]
        exact hsame (scoped_inj hcaller ha.caller (fun h => absurd h hnil) ha.anonymous heq).1.symm
      simp [listedName, hnil, hstart]

/-! ## Isolation -/

/-- What the store answers at every plain address after a run. -/
structure Isolated (finite : V → Bool) (w : World V M) : Prop where
  resolves : ∀ a : Address, a.Plain → ((∃ c, w.store.collection a.key = .ok c) ↔ live w.events a = true)
  untouched : ∀ (c : Call V M) (a : Address), c.Clear → a.Plain → a ≠ c.address →
    (serve finite c w.store).1.collection a.key = w.store.collection a.key
  listed : ∀ caller tenant database : Bytes, 0 ∉ caller → Unshared w caller tenant database →
    (collectionNames w.store caller tenant database).Nodup ∧
      ∀ n, n ∈ collectionNames w.store caller tenant database ↔
        live w.events ⟨caller, chromaPlace tenant database n⟩ = true

theorem mem_names : k ∈ s.names ↔ (s.collections.lookup k).isSome = true := by
  rw [names, mem_mergeSort, AList.lookup_isSome, AList.mem_keys]

theorem nodup_names (s : Store V M) : s.names.Nodup :=
  (mergeSort_perm _ _).nodup_iff.mpr s.collections.keys_nodup

/-- In every run of clear requests the collections are isolated and addressable. -/
theorem run_isolated (finite : V → Bool) {calls : List (Call V M)} (hcalls : ∀ c ∈ calls, c.Clear) :
    Isolated finite (run finite calls) := by
  have hinv := run_inv finite hcalls
  refine ⟨fun a ha => ?_, fun c a hc ha hne => ?_, fun caller tenant database hcaller hshared => ?_⟩
  · simp only [collection_ok, ← hinv.resolves a ha, Option.isSome_iff_exists]
  · rw [collection, collection, (serve_effect finite _ hc).frame _ fun hkey =>
      hne (Address.key_inj ha hc.plain hkey)]
  · have hentry : ∀ k ∈ (run finite calls).store.names, ∃ a : Address, a.key = k ∧ live (run finite calls).events a = true ∧
        ∀ n, listedName caller tenant database k = some n ↔ a = ⟨caller, chromaPlace tenant database n⟩ := by
      intro k hk
      rw [mem_names] at hk
      obtain ⟨a, ha, rfl⟩ := hinv.named k hk
      have hlive := (hinv.resolves a ha).symm.trans hk
      exact ⟨a, rfl, hlive, listedName_iff ha hcaller fun h₁ h₂ => hshared h₁ h₂ a hlive⟩
    constructor
    · rw [collectionNames, Nodup, pairwise_filterMap]
      refine (nodup_names _).imp_of_mem fun hk hk' hne n hn n' hn' heq => hne ?_
      obtain ⟨a, rfl, -, hiff⟩ := hentry _ hk
      obtain ⟨a', rfl, -, hiff'⟩ := hentry _ hk'
      rw [(hiff n).mp hn, (hiff' n').mp hn', heq]
    · intro n
      rw [collectionNames, mem_filterMap]
      constructor
      · rintro ⟨k, hk, hn⟩
        obtain ⟨a, -, hlive, hiff⟩ := hentry k hk
        exact (hiff n).mp hn ▸ hlive
      · intro hlive
        have ha := hinv.plain _ hlive
        refine ⟨_, mem_names.mpr ((hinv.resolves _ ha).trans hlive), ?_⟩
        exact (listedName_iff ha hcaller (fun h₁ h₂ => hshared h₁ h₂ _ hlive) n).mpr rfl

/-- A tenant's collection `docs` in the database `d` of the Chroma tenant `t`. -/
def acmeDocs : Call Nat Unit :=
  ⟨bytes "acme", .chromaCreate (bytes "t") (bytes "d") (bytes "docs") false (some .cosine)⟩

def acmeKey : Bytes := bytes "acme" ++ 0 :: bytes "docs" ++ 2 :: bytes "t" ++ 2 :: bytes "d"

theorem acmeKey_trimmed : trimSpace acmeKey = acmeKey := by
  have hkey : acmeKey = UInt8.ofNat 'a'.toNat :: (acmeKey.drop 1).dropLast ++ [UInt8.ofNat 'd'.toNat] := by decide
  rw [hkey]
  exact trimSpace_eq_self (by decide) (by decide) _ (by decide) (by decide)

theorem acmeDocs_clear : acmeDocs.Clear := by
  have hplace : acmeDocs.request.place = .database (bytes "t") (bytes "d") (bytes "docs") := by decide
  refine ⟨⟨by decide, nofun, ?_⟩, fun _ => ?_⟩
  · exact ⟨by decide, by decide, by decide, by decide⟩
  · exact acmeKey_trimmed

theorem run_isolated_acmeDocs :
    acmeDocs.Clear ∧ Isolated (fun _ => true) (run (fun _ => true) [acmeDocs]) :=
  ⟨acmeDocs_clear, run_isolated _ (forall_mem_singleton.mpr acmeDocs_clear)⟩

/-- An anonymous caller that lists the same database is shown the tenant's collection. -/
theorem tenant_listed_to_anonymous :
    collectionNames (run (fun _ => true) [acmeDocs]).store [] (bytes "t") (bytes "d") =
        [bytes "acme" ++ 0 :: bytes "docs"] ∧
      ∀ n, live (run (fun _ => true) [acmeDocs]).events ⟨[], chromaPlace (bytes "t") (bytes "d") n⟩ = false := by
  have hblank : isBlank (bytes "docs") = false := by
    rfl
  have hstore : (run (fun _ => true) [acmeDocs]).store =
      ⟨(∅ : AList fun _ : Bytes => Collection Nat Unit).insert acmeKey ⟨0, .cosine, ∅⟩⟩ := by
    rfl
  have hother : ∀ n, acmeDocs.address ≠ ⟨[], chromaPlace (bytes "t") (bytes "d") n⟩ :=
    fun n h => (show bytes "acme" ≠ [] by decide) (congrArg Address.caller h)
  refine ⟨?_, fun n => ?_⟩
  swap
  · rfl
  have hnames : names ⟨(∅ : AList fun _ : Bytes => Collection Nat Unit).insert acmeKey ⟨0, .cosine, ∅⟩⟩ =
      [acmeKey] := mergeSort_singleton _
  rw [hstore, collectionNames, hnames]
  decide

end MockAgents.Vector
