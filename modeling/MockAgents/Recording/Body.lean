import MockAgents.Lib.Base64
/-!
# Stored bodies

`EncodeBody` and `DecodeBody` of `internal/recording/cassette.go`: how a request
or response body is wrapped so that a cassette line stays valid JSON.
-/

namespace MockAgents.Recording

open Lib

/-- The body encodings; `other` is any text a cassette file may carry. -/
inductive BodyEncoding where
  | json
  | text
  | base64
  | other (name : Bytes)
deriving DecidableEq, Repr

/-- `EncodeBody`: the stored value and its encoding. -/
def encodeBody (printable : Char → Bool) (b : Bytes) : Bytes × BodyEncoding :=
  if b.length = 0 then ([], .json)
  else if Json.valid b then (b, .json)
  else if Utf8.valid b then (Utf8.bytes (Strconv.quote printable b), .text)
  else
    (Utf8.bytes (Strconv.quote printable (Utf8.encode (Base64.encodeToString b))), .base64)

/-- `DecodeBody`; a value that does not decode is served as it is stored. -/
def decodeBody (raw : Bytes) (encoding : BodyEncoding) : Bytes :=
  if raw.length = 0 then []
  else
    match encoding with
    | .text =>
      match Json.unmarshalString raw with
      | some s => s
      | none => raw
    | .base64 =>
      match Json.unmarshalString raw with
      | some s => (Base64.decodeString s).getD raw
      | none => raw
    | _ => raw

end MockAgents.Recording
