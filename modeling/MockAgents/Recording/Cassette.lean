import MockAgents.Recording.Body
/-!
# Cassettes

The recording side of `internal/recording/cassette.go`: `Append` and `AppendAll`
extend the interactions under one lock and hand a snapshot to `flush`, which
writes it under another.  The encoder of a line, the request hash and the outcome
of every file operation are arguments.  The index by hash is not used for writing
and is left out.
-/

namespace MockAgents.Recording

open Lib

structure StreamEvent where
  delayMs : Int
  data : Bytes
deriving DecidableEq, Repr

/-- `Interaction`; an unset time is `none`. -/
structure Interaction where
  recordedAt : Option Int := none
  hash : Bytes := []
  method : Bytes
  path : Bytes
  requestHeaders : List (Bytes × Bytes) := []
  requestBody : Bytes := []
  requestBodyEncoding : BodyEncoding := .json
  responseStatus : Int := 0
  responseHeaders : List (Bytes × Bytes) := []
  responseBody : Bytes := []
  responseBodyEncoding : BodyEncoding := .json
  streaming : Bool := false
  streamEvents : List StreamEvent := []
deriving DecidableEq, Repr

def Interaction.requestBodyBytes (it : Interaction) : Bytes :=
  decodeBody it.requestBody it.requestBodyEncoding

structure Cassette where
  path : String
  interactions : List Interaction
  flushed : Nat
  rewrite : Bool
deriving DecidableEq, Repr

def Cassette.new (path : String) : Cassette := ⟨path, [], 0, false⟩

/-! ## Appending in memory -/

section Append

variable (hashRequest : Bytes → Bytes → Bytes → Bytes)

def stamp (now : Int) (it : Interaction) : Interaction :=
  { it with
    hash := if it.hash.isEmpty then hashRequest it.method it.path it.requestBodyBytes
      else it.hash
    recordedAt := some (it.recordedAt.getD now) }

/-- The locked part of `AppendAll`; the snapshot is the new list of interactions. -/
def Cassette.appendAll (c : Cassette) (now : Int) (its : List Interaction) : Cassette :=
  { c with interactions := c.interactions ++ its.map (stamp hashRequest now) }

def Cassette.append (c : Cassette) (now : Int) (it : Interaction) : Cassette :=
  { c with interactions := c.interactions ++ [stamp hashRequest now it] }

end Append

/-! ## Writing to disk -/

inductive FileError where
  | open
  | write
  | close
  | createTemp
  | rename
deriving DecidableEq, Repr

/-- How the operations of `appendCassette` turn out; a failing write may have
written a prefix of the data. -/
inductive AppendIO where
  | openFails
  | writeFails (written : Nat)
  | closeFails
  | succeeds
deriving DecidableEq, Repr

/-- How the operations of `writeCassette` turn out.  A failing write is sticky in
the buffered writer, so it surfaces when the writer is flushed. -/
inductive RewriteIO where
  | createTempFails
  | writeFails
  | closeFails
  | renameFails
  | succeeds
deriving DecidableEq, Repr

/-- The operations one flush may perform: it appends or it rewrites. -/
structure FlushIO where
  append : AppendIO
  rewrite : RewriteIO
deriving DecidableEq, Repr

section Flush

variable (encode : Interaction → Option Bytes)

def encodeLines : List Interaction → Bytes
  | [] => []
  | it :: rest =>
    match encode it with
    | some line => line ++ encodeLines rest
    | none => encodeLines rest

/-- `appendCassette`: the file and the error it leaves. -/
def appendCassette (file : Option Bytes) (data : Bytes) :
    AppendIO → Option Bytes × Option FileError
  | .openFails => (file, some .open)
  | .writeFails written => (some (file.getD [] ++ data.take written), some .write)
  | .closeFails => (some (file.getD [] ++ data), some .close)
  | .succeeds => (some (file.getD [] ++ data), none)

/-- `writeCassette`: only the final rename touches the file. -/
def writeCassette (file : Option Bytes) (interactions : List Interaction) :
    RewriteIO → Option Bytes × Option FileError
  | .createTempFails => (file, some .createTemp)
  | .writeFails => (file, some .write)
  | .closeFails => (file, some .close)
  | .renameFails => (file, some .rename)
  | .succeeds => (some (encodeLines encode interactions), none)

def Cassette.flush (c : Cassette) (file : Option Bytes) (snapshot : List Interaction)
    (io : FlushIO) : Cassette × Option Bytes × Option FileError :=
  if c.flushed ≥ snapshot.length then (c, file, none)
  else if c.rewrite then
    match writeCassette encode file snapshot io.rewrite with
    | (file, some err) => (c, file, some err)
    | (file, none) => ({ c with rewrite := false, flushed := snapshot.length }, file, none)
  else
    let buf := encodeLines encode (snapshot.drop c.flushed)
    if buf.length = 0 then ({ c with flushed := snapshot.length }, file, none)
    else
      match appendCassette file buf io.append with
      | (file, some err) => ({ c with rewrite := true }, file, some err)
      | (file, none) => ({ c with flushed := snapshot.length }, file, none)

end Flush

/-! ## Concurrent callers -/

/-- A cassette with its file and the snapshots of the calls that have released
`mu` and still have to take `writeMu`. -/
structure Recorder where
  cassette : Cassette
  file : Option Bytes
  waiting : List (List Interaction)
deriving DecidableEq, Repr

/-- The atomic steps: a call appends and takes its snapshot, or one of the
waiting calls performs its whole flush. -/
inductive Action where
  | append (now : Int) (it : Interaction)
  | appendAll (now : Int) (its : List Interaction)
  | flush (caller : Nat) (io : FlushIO)
deriving DecidableEq, Repr

def Recorder.start (path : String) : Recorder := ⟨Cassette.new path, none, []⟩

/-- A call that left `mu`; without a path it returns at once. -/
def Recorder.enqueue (r : Recorder) (c : Cassette) : Recorder :=
  { r with
    cassette := c
    waiting := if c.path = "" then r.waiting else r.waiting ++ [c.interactions] }

def Recorder.step (hashRequest : Bytes → Bytes → Bytes → Bytes)
    (encode : Interaction → Option Bytes) (r : Recorder) : Action → Recorder × Option FileError
  | .append now it => (r.enqueue (r.cassette.append hashRequest now it), none)
  | .appendAll now its => (r.enqueue (r.cassette.appendAll hashRequest now its), none)
  | .flush caller io =>
    match r.waiting[caller]? with
    | none => (r, none)
    | some snapshot =>
      let done := r.cassette.flush encode r.file snapshot io
      ({ cassette := done.1, file := done.2.1, waiting := r.waiting.eraseIdx caller }, done.2.2)

def Recorder.run (hashRequest : Bytes → Bytes → Bytes → Bytes)
    (encode : Interaction → Option Bytes) (r : Recorder) (acts : List Action) : Recorder :=
  acts.foldl (fun r a => (r.step hashRequest encode a).1) r

def Recorder.contents (r : Recorder) : Bytes := r.file.getD []

end MockAgents.Recording
