import MockAgents.Lib.Strings
/-!
# Masking of credentials

`SanitizeBody` of `internal/storage/sqlite.go`, which masks what follows the known prefixes of
keys and tokens.
-/

namespace MockAgents.Storage

open Lib Lib.Utf8

def isAlnum (c : UInt8) : Bool :=
  (decide (97 ≤ c) && decide (c ≤ 122)) || (decide (65 ≤ c) && decide (c ≤ 90)) ||
    (decide (48 ≤ c) && decide (c ≤ 57))

def isKeyChar (c : UInt8) : Bool := isAlnum c || decide (c = 95) || decide (c = 45)

def minKeyDashValueLen : Nat := 16

/-- A quote, a space or a comma ends a value. -/
def isDelimiter (c : UInt8) : Bool := decide (c = 34) || decide (c = 32) || decide (c = 44)

def stars : Bytes := bytes "***"

def keyDash : Bytes := bytes "key-"

def bearer : Bytes := bytes "Bearer "

def isMasked (value : Bytes) : Bool := stars.isPrefixOf value && (value.drop 3).head?.all isDelimiter

def valueLen (pattern value : Bytes) : Nat :=
  if pattern = keyDash then (value.takeWhile isKeyChar).length
  else (value.takeWhile fun c => !isDelimiter c).length

/-- `looksLikeKey`, with the text before the prefix and the value of `n` bytes after it. -/
def looksLikeKey (before pattern value : Bytes) (n : Nat) : Bool :=
  !before.getLast?.any isAlnum &&
    (!keyDash.isPrefixOf (pattern ++ value) ||
      (decide (minKeyDashValueLen ≤ n) && (value.take n).all isKeyChar))

/-- The loop of one prefix; the text is cut at its offset. -/
def maskPattern (pattern : Bytes) : Nat → Bytes → Bytes → Bytes
  | 0, before, rest => before ++ rest
  | fuel + 1, before, rest =>
    match Strings.index rest pattern with
    | none => before ++ rest
    | some idx =>
      let head := before ++ rest.take idx
      let value := rest.drop (idx + pattern.length)
      let n := valueLen pattern value
      if isMasked value then maskPattern pattern fuel (head ++ pattern ++ stars) (value.drop 3)
      else if pattern ≠ bearer ∧ looksLikeKey head pattern value n = false then
        maskPattern pattern fuel (head ++ pattern) value
      else maskPattern pattern fuel (head ++ pattern ++ stars) (value.drop n)

/-- `SanitizeBody`.  An iteration goes past a prefix, so the length bounds their number. -/
def sanitizeBody (body : Bytes) : Bytes :=
  [bytes "sk-", keyDash, bearer].foldl (fun s pattern => maskPattern pattern s.length [] s) body

end MockAgents.Storage
