import MockAgents.Recording.Body
/-!
# When a stored body is lossless

Verbatim JSON and base64 always survive.  Quoted text survives exactly when Go's
quoting of it is a JSON string, which fails for `\a`, `\v`, the other control
characters without a JSON short form, DEL, and unprintable supplementary runes.
-/

namespace MockAgents.Recording.Proofs

open Lib Json Utf8

variable (printable : Char → Bool)

/-- The stored value is empty or valid JSON, and decodes to the body. -/
def Lossless (b : Bytes) : Prop :=
  ((encodeBody printable b).1 = [] ∨ Json.valid (encodeBody printable b).1 = true) ∧
    decodeBody (encodeBody printable b).1 (encodeBody printable b).2 = b

/-- Every rune of the body is one that Go and JSON quote alike. -/
def QuotableText (b : Bytes) : Prop :=
  ∀ c, Utf8.Rune.char c ∈ Utf8.runes b → Json.Quotable printable c

theorem bytes_quote_ne_nil (cs : List Char) :
    (bytes (Strconv.quote printable (encode cs))).length ≠ 0 := by
  rw [bytes_quote]
  simp

theorem quotableText_encode (cs : List Char) :
    QuotableText printable (encode cs) ↔ ∀ c ∈ cs, Quotable printable c := by
  simp [QuotableText]

theorem lossless_nil : Lossless printable [] := by
  have henc : encodeBody printable [] = ([], .json) := if_pos rfl
  exact ⟨.inl rfl, if_pos rfl⟩

theorem lossless_json {b : Bytes} (h : Json.valid b = true) : Lossless printable b := by
  by_cases hb : b.length = 0
  · have hnil : b = [] := List.length_eq_zero_iff.mp hb
    subst hnil
    exact lossless_nil printable
  · have henc : encodeBody printable b = (b, .json) := by
      rw [encodeBody, if_neg hb, if_pos h]
    rw [Lossless, henc]
    exact ⟨.inr h, by unfold decodeBody; rw [if_neg hb]⟩

theorem lossless_base64 {b : Bytes} (hjson : ¬ Json.valid b = true)
    (hutf8 : Utf8.valid b = false) : Lossless printable b := by
  have hb : b.length ≠ 0 := by
    intro hlen
    rw [List.length_eq_zero_iff.mp hlen] at hutf8
    exact absurd hutf8 (by decide)
  have henc : encodeBody printable b =
      (bytes (Strconv.quote printable (encode (Base64.encodeToString b))), .base64) := by
    rw [encodeBody, if_neg hb, if_neg hjson, hutf8]
    rfl
  -- base64 text is printable ASCII without quotes, so every character is quotable
  have hquot : ∀ c ∈ Base64.encodeToString b, Quotable printable c := by
    intro c hc
    have hascii := Base64.encodeToString_ascii b c hc
    exact ⟨by omega, by omega⟩
  simp only [Lossless, henc]
  refine ⟨.inr ((valid_quote_iff printable _).mpr hquot), ?_⟩
  rw [decodeBody, if_neg (bytes_quote_ne_nil printable _)]
  simp only [unmarshalString_quote printable _ hquot,
    Base64.decodeString_encodeToString, Option.getD_some]

theorem lossless_text_iff {b : Bytes} (hb : b.length ≠ 0) (hjson : ¬ Json.valid b = true)
    (hutf8 : Utf8.valid b = true) : Lossless printable b ↔ QuotableText printable b := by
  obtain ⟨cs, rfl⟩ := (valid_iff b).mp hutf8
  have henc : encodeBody printable (encode cs) =
      (bytes (Strconv.quote printable (encode cs)), .text) := by
    rw [encodeBody, if_neg hb, if_neg hjson, if_pos hutf8]
  rw [quotableText_encode]
  simp only [Lossless, henc]
  have hne := bytes_quote_ne_nil printable cs
  constructor
  · rintro ⟨hnil | hvalid, _⟩
    · exact absurd (congrArg List.length hnil) hne
    · exact (valid_quote_iff printable cs).mp hvalid
  · intro hquot
    refine ⟨.inr ((valid_quote_iff printable cs).mpr hquot), ?_⟩
    rw [decodeBody, if_neg hne]
    simp only [unmarshalString_quote printable cs hquot]

/-- **When a stored body is lossless**: exactly when it is JSON already, is not
valid UTF-8, or has only runes that both grammars quote alike. -/
theorem encodeBody_lossless_iff (b : Bytes) :
    Lossless printable b ↔
      Json.valid b = true ∨ Utf8.valid b = false ∨ QuotableText printable b := by
  by_cases hjson : Json.valid b = true
  · exact iff_of_true (lossless_json printable hjson) (.inl hjson)
  · cases hutf8 : Utf8.valid b with
    | false => exact iff_of_true (lossless_base64 printable hjson hutf8) (.inr (.inl rfl))
    | true =>
      by_cases hb : b.length = 0
      · have hnil : b = [] := List.length_eq_zero_iff.mp hb
        subst hnil
        refine iff_of_true (lossless_nil printable) (.inr (.inr ?_))
        intro c hc
        simp [runes_nil] at hc
      · rw [lossless_text_iff printable hb hjson hutf8]
        simp [hjson]

/-- The bell character alone: `EncodeBody` stores the four bytes `"\a"`, which is
not JSON, and `DecodeBody` returns those bytes instead of the body. -/
theorem encodeBody_bell :
    encodeBody (fun _ => true) [7] = ([34, 92, 97, 34], .text) ∧
      Json.valid [34, 92, 97, 34] = false ∧ decodeBody [34, 92, 97, 34] .text = [34, 92, 97, 34] ∧
      ¬ Lossless (fun _ => true) [7] := by
  have henc : encodeBody (fun _ => true) [7] = ([34, 92, 97, 34], .text) := by
    decide +kernel
  have hvalid : Json.valid [34, 92, 97, 34] = false := by decide +kernel
  refine ⟨henc, hvalid, by decide +kernel, ?_⟩
  rw [Lossless, henc]
  rintro ⟨hnil | hjson, _⟩
  · simp at hnil
  · rw [hvalid] at hjson
    exact Bool.false_ne_true hjson

end MockAgents.Recording.Proofs
