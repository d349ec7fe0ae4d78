import MockAgents.Recording.Encode
/-!
# The lines of a cassette are lines

Every interaction that can be encoded is written as one object without a raw newline: strings
escape it, and the compact form of a valid body has none.
-/

namespace MockAgents.Recording

open Lib Lib.Utf8 Lib.Json List Option

/-- A text on one line between braces. -/
structure Framed (obj : Bytes) : Prop where
  opens : obj.head? = some (byte '{')
  closes : obj.getLast? = some (byte '}')
  oneLine : 10 ∉ obj

theorem newline_not_mem_decimal (n : Int) : 10 ∉ decimal n := by
  have hdigits : ∀ (m : Nat) c, c ∈ (Nat.repr m).toList → c.toNat ≠ 10 := by
    intro m c hc hten
    rw [Nat.repr, String.toList_ofList] at hc
    have hdigit := Nat.isDigit_of_mem_toDigits (by decide) (by decide) hc
    rw [Char.isDigit, Bool.and_eq_true, decide_eq_true_eq] at hdigit
    have hlow : 48 ≤ c.toNat := hdigit.1
    omega
  have hchar : ∀ c ∈ (toString n).toList, c.toNat ≠ 10 := by
    intro c hc
    cases n with
    | ofNat m => exact hdigits m c hc
    | negSucc m =>
      have hneg : (toString (Int.negSucc m)).toList = '-' :: (Nat.repr (m + 1)).toList := by
        change ("-" ++ Nat.repr (m + 1)).toList = _
        rw [String.toList_append]
        rfl
      rw [hneg] at hc
      rcases mem_cons.mp hc with rfl | hc
      · decide
      · exact hdigits _ c hc
  rw [decimal, bytes, encode, mem_flatMap]
  rintro ⟨c, hc, hmem⟩
  have hnot := newline_not_mem_encode (hchar c hc)
  rw [encode, flatMap_singleton] at hnot
  exact hnot hmem

theorem join_cons_cons (p q : Bytes) (parts : List Bytes) :
    Strings.join (p :: q :: parts) [byte ','] = p ++ byte ',' :: Strings.join (q :: parts) [byte ','] := by
  simp [Strings.join, intercalate]

theorem newline_not_mem_join {parts : List Bytes} (h : ∀ p ∈ parts, 10 ∉ p) :
    10 ∉ Strings.join parts [byte ','] := by
  induction parts with
  | nil => exact not_mem_nil
  | cons p parts ih =>
    have hp := h p mem_cons_self
    have hrest := ih fun q hq => h q (mem_cons_of_mem p hq)
    cases parts with
    | nil => simpa [Strings.join, intercalate] using hp
    | cons q parts =>
      rw [join_cons_cons, mem_append, mem_cons]
      rintro (hmem | hcomma | hmem)
      · exact hp hmem
      · exact absurd hcomma (by decide)
      · exact hrest hmem

theorem newline_not_mem_enclosed {l r : UInt8} {text : Bytes} (hl : 10 ≠ l) (hr : 10 ≠ r) (h : 10 ∉ text) :
    10 ∉ l :: text ++ [r] := by
  simp [hl, hr, h]

theorem newline_not_mem_braced {members : List Bytes} (h : ∀ p ∈ members, 10 ∉ p) : 10 ∉ braced members :=
  newline_not_mem_enclosed (by decide) (by decide) (newline_not_mem_join h)

theorem newline_not_mem_pair {key value : Bytes} (hkey : 10 ∉ key) (hvalue : 10 ∉ value) :
    10 ∉ key ++ byte ':' :: value := by
  rw [mem_append, mem_cons]
  rintro (hmem | hcolon | hmem)
  · exact hkey hmem
  · exact absurd hcolon (by decide)
  · exact hvalue hmem

theorem newline_not_mem_member (key : String) {value : Bytes} (h : 10 ∉ value) : 10 ∉ member key value :=
  newline_not_mem_pair (newline_not_mem_jsonString _) h

theorem newline_not_mem_stringMap (entries : List (Bytes × Bytes)) : 10 ∉ stringMap entries := by
  refine newline_not_mem_braced fun p hp => ?_
  obtain ⟨e, -, rfl⟩ := mem_map.mp hp
  exact newline_not_mem_pair (newline_not_mem_jsonString _) (newline_not_mem_jsonString _)

theorem newline_not_mem_streamText (events : List StreamEvent) : 10 ∉ streamText events := by
  refine newline_not_mem_enclosed (by decide) (by decide) (newline_not_mem_join fun p hp => ?_)
  obtain ⟨ev, -, rfl⟩ := mem_map.mp hp
  refine newline_not_mem_braced fun q hq => ?_
  rcases mem_cons.mp hq with rfl | hq
  · exact newline_not_mem_member _ (newline_not_mem_decimal _)
  · obtain rfl := mem_singleton.mp hq
    exact newline_not_mem_member _ (newline_not_mem_jsonString _)

theorem newline_not_mem_unlessEmpty {α : Type} {key : String} {value : List α} {text : List α → Bytes}
    (h : 10 ∉ text value) : ∀ p ∈ unlessEmpty key value text, 10 ∉ p := by
  intro p hp
  unfold unlessEmpty at hp
  split at hp
  · exact absurd hp not_mem_nil
  · obtain rfl := mem_singleton.mp hp
    exact newline_not_mem_member key h

theorem newline_not_mem_rawMember {key : String} {raw : Bytes} {members : List Bytes}
    (h : rawMember key raw = some members) : ∀ p ∈ members, 10 ∉ p := by
  unfold rawMember at h
  split at h
  · cases h
    exact fun p hp => absurd hp not_mem_nil
  · obtain ⟨text, htext, rfl⟩ := map_eq_some_iff.mp h
    intro p hp
    obtain rfl := mem_singleton.mp hp
    exact newline_not_mem_member key (newline_not_mem_compact htext)

theorem newline_not_mem_members (it : Interaction) {time : Bytes} {request response : List Bytes}
    (htime : 10 ∉ time) (hrequest : ∀ p ∈ request, 10 ∉ p) (hresponse : ∀ p ∈ response, 10 ∉ p) :
    ∀ p ∈ it.members time request response, 10 ∉ p := by
  have hstreaming : ∀ p ∈ (if it.streaming then [member "streaming" (bytes "true")] else []), 10 ∉ p := by
    intro p hp
    split at hp
    · obtain rfl := mem_singleton.mp hp
      exact newline_not_mem_member _ (by decide)
    · exact absurd hp not_mem_nil
  have hfixed : ∀ p ∈ [member "recorded_at" time, member "hash" (jsonString it.hash),
      member "method" (jsonString it.method), member "path" (jsonString it.path)], 10 ∉ p := by
    simp only [forall_mem_cons, not_mem_nil, false_imp_iff, implies_true, and_true]
    exact ⟨newline_not_mem_member _ htime, newline_not_mem_member _ (newline_not_mem_jsonString _),
      newline_not_mem_member _ (newline_not_mem_jsonString _), newline_not_mem_member _ (newline_not_mem_jsonString _)⟩
  have hstatus : ∀ p ∈ [member "response_status" (decimal it.responseStatus)], 10 ∉ p := by
    intro p hp
    obtain rfl := mem_singleton.mp hp
    exact newline_not_mem_member _ (newline_not_mem_decimal _)
  simp only [Interaction.members, forall_mem_append]
  exact ⟨⟨⟨⟨⟨⟨⟨⟨⟨hfixed, newline_not_mem_unlessEmpty (newline_not_mem_stringMap _)⟩, hrequest⟩, hstatus⟩,
    newline_not_mem_unlessEmpty (newline_not_mem_stringMap _)⟩, hresponse⟩,
    newline_not_mem_unlessEmpty (newline_not_mem_jsonString _)⟩,
    newline_not_mem_unlessEmpty (newline_not_mem_jsonString _)⟩, hstreaming⟩,
    newline_not_mem_unlessEmpty (newline_not_mem_streamText _)⟩

/-- Every interaction that can be encoded is one line between braces. -/
theorem Interaction.object_framed {tt : TimeText} {it : Interaction} {obj : Bytes} (h : it.object tt = some obj) :
    Framed obj := by
  simp only [Interaction.object, bind_eq_bind, bind_eq_some_iff, some.injEq] at h
  obtain ⟨time, htime, request, hrequest, response, hresponse, rfl⟩ := h
  refine ⟨rfl, ?_, ?_⟩
  · rw [braced, getLast?_append]
    rfl
  · exact newline_not_mem_braced (newline_not_mem_members it (tt.oneLine _ _ htime)
      (newline_not_mem_rawMember hrequest) (newline_not_mem_rawMember hresponse))

end MockAgents.Recording
