import Mathlib
import MockAgents.Lib.Strings
import MockAgents.Recording.Cassette
/-!
# Loading a cassette

`Load` of `internal/recording/cassette.go`.  The lines are those of a `bufio.Scanner` with
`ScanLines`, which stops at the first line that does not fit its buffer; `json.Unmarshal` is a
parameter.
-/

namespace MockAgents.Recording

open Lib

def maxCassetteLine : Nat := 32 * 2 ^ 20

/-! ## Lines -/

/-- The texts between the newlines, from one that has begun.  The last one is a line only if it
has a byte. -/
def splitLines (begun : Bytes) : Bytes → List Bytes
  | [] => if begun.isEmpty then [] else [begun]
  | b :: rest => if b = 10 then begun :: splitLines [] rest else splitLines (begun ++ [b]) rest

/-- The lines a scanner yields, and whether it stopped at one that is too long. -/
def scanLines (limit : Nat) (contents : Bytes) : List Bytes × Bool :=
  let lines := splitLines [] contents
  let fitting := lines.takeWhile fun line => decide (line.length < limit)
  (fitting, decide (fitting.length < lines.length))

def dropCR (line : Bytes) : Bytes := if line.getLast? = some 13 then line.dropLast else line

def lineText (line : Bytes) : Bytes := Strings.trimSpace (dropCR line)

/-- `endsWithNewline`; an empty file counts as terminated. -/
def endsWithNewline (contents : Bytes) : Bool := contents.isEmpty || contents.getLast? = some 10

/-! ## Load -/

inductive CassetteFile where
  | missing
  | unopenable
  | contents (b : Bytes)

def CassetteFile.ofOption : Option Bytes → CassetteFile
  | none => .missing
  | some b => .contents b

inductive LoadError where
  | opening
  /-- the number of the line that does not parse -/
  | parsing (line : Nat)
  | reading
deriving DecidableEq, Repr

/-- What the loop of `Load` has read; `torn` is the number of a line that did not parse. -/
structure Loading where
  interactions : List Interaction
  torn : Option Nat

variable (decode : Bytes → Option Interaction)

/-- The loop, from a line number on.  A parse failure is held back until another line follows. -/
def loadLines : Nat → Loading → List Bytes → Except LoadError Loading
  | _, s, [] => .ok s
  | lineNo, s, line :: rest =>
    if (lineText line).isEmpty then loadLines (lineNo + 1) s rest
    else
      match s.torn with
      | some torn => .error (.parsing torn)
      | none =>
        match decode (lineText line) with
        | none => loadLines (lineNo + 1) { s with torn := some lineNo } rest
        | some it => loadLines (lineNo + 1) { s with interactions := s.interactions ++ [it] } rest

def load (path : String) : CassetteFile → Except LoadError Cassette
  | .missing => .ok (Cassette.new path)
  | .unopenable => .error .opening
  | .contents b =>
    let scanned := scanLines maxCassetteLine b
    match loadLines decode 1 ⟨[], none⟩ scanned.1 with
    | .error err => .error err
    | .ok s =>
      if scanned.2 then .error .reading
      else
        .ok
          { path := path
            interactions := s.interactions
            flushed := s.interactions.length
            rewrite := s.torn.isSome || !endsWithNewline b }

end MockAgents.Recording
