import MockAgents.Lib.Utf8
/-!
# Go string quoting

`strconv.Quote`: the Go string literal of a byte string.  The Latin-1 part of
`strconv.IsPrint` is spelled out; above it the Unicode tables are a parameter
`printable`, so every statement holds whatever the tables say.
-/

namespace MockAgents.Lib.Strconv

open Utf8

def hexDigit (n : Nat) : Char := "0123456789abcdef".toList.getD n '0'

/-- The low `width` hexadecimal digits of `n`, most significant first. -/
def hexPad : Nat → Nat → List Char
  | 0, _ => []
  | width + 1, n => hexPad width (n / 16) ++ [hexDigit (n % 16)]

def isPrint (printable : Char → Bool) (c : Char) : Bool :=
  if c.toNat ≤ 0xFF then
    (0x20 ≤ c.toNat && c.toNat < 0x7F) || (0xA1 ≤ c.toNat && c.toNat != 0xAD)
  else printable c

/-- `appendEscapedRune` with a double quote as the delimiter. -/
def escapeRune (printable : Char → Bool) (c : Char) : List Char :=
  if c = '"' || c = '\\' then ['\\', c]
  else if isPrint printable c then [c]
  else if c.toNat = 7 then ['\\', 'a']
  else if c.toNat = 8 then ['\\', 'b']
  else if c.toNat = 12 then ['\\', 'f']
  else if c.toNat = 10 then ['\\', 'n']
  else if c.toNat = 13 then ['\\', 'r']
  else if c.toNat = 9 then ['\\', 't']
  else if c.toNat = 11 then ['\\', 'v']
  else if c.toNat < 0x20 || c.toNat = 0x7F then '\\' :: 'x' :: hexPad 2 c.toNat
  else if c.toNat < 0x10000 then '\\' :: 'u' :: hexPad 4 c.toNat
  else '\\' :: 'U' :: hexPad 8 c.toNat

/-- One rune of the quoted string; a byte outside valid UTF-8 is written in
hexadecimal. -/
def quoteRune (printable : Char → Bool) : Rune → List Char
  | .char c => escapeRune printable c
  | .bad b => '\\' :: 'x' :: hexPad 2 b.toNat

def quote (printable : Char → Bool) (b : Bytes) : String :=
  String.ofList ('"' :: (runes b).flatMap (quoteRune printable) ++ ['"'])

end MockAgents.Lib.Strconv
