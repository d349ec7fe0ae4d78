import MockAgents.Realtime.Validate
/-!
# The conversation index

Minting ids, and the three places that record the conversation: the item map, the
item order and its tail.  Item maps are allocated in the session's heap.
-/

namespace MockAgents.Realtime

open Lib

variable {F : Type} [GoFloat F]

def maxSessionItems : Nat := 4096

def maxSessionHistory : Nat := 4096

inductive IDKind where
  | item
  | msg
  | fc
  | call
  | resp
  | event
deriving DecidableEq, Repr

def IDKind.text : IDKind → String
  | .item => "item"
  | .msg => "msg"
  | .fc => "fc"
  | .call => "call"
  | .resp => "resp"
  | .event => "event"

/-- `fmt.Sprintf("%s_%s_%d", prefix, s.id, s.counter)`. -/
def mintID (kind : IDKind) (sess : String) (n : Nat) : String :=
  kind.text ++ "_" ++ sess ++ "_" ++ toString n

/-- The loop of `nextID`: the first count past `n` whose id is not taken. -/
def nextCount (taken : String → Bool) (kind : IDKind) (sess : String) : Nat → Nat → Nat
  | 0, n => n + 1
  | fuel + 1, n =>
    if taken (mintID kind sess (n + 1)) then nextCount taken kind sess fuel (n + 1) else n + 1

/-- Drops the oldest ids while the map is over its bound. -/
def evict (items : AList fun _ : String => Nat) :
    List String → (AList fun _ : String => Nat) × List String
  | [] => (items, [])
  | oldest :: rest =>
    if items.keys.length > maxSessionItems then evict (items.erase oldest) rest
    else (items, oldest :: rest)

def lastN {α : Type} (n : Nat) (xs : List α) : List α := xs.drop (xs.length - n)

namespace Session

/-- `nextID`.  The items are finitely many, so one try more than there are items
finds a free id. -/
def nextID (s : Session F) (kind : IDKind) : Session F × String :=
  let n := nextCount (fun id => (s.items.lookup id).isSome) kind s.id (s.items.keys.length + 1)
    s.counter
  ({ s with counter := n }, mintID kind s.id n)

def alloc (s : Session F) (id : String) (data : ItemData) : Session F × ItemRef :=
  ({ s with heap := s.heap ++ [data] }, ⟨id, s.heap.length⟩)

def load (s : Session F) (loc : Nat) : ItemData := s.heap.getD loc ⟨.completed, .other ""⟩

def modify (s : Session F) (loc : Nat) (f : ItemData → ItemData) : Session F :=
  { s with heap := s.heap.modify loc f }

def enforceBounds (s : Session F) : Session F :=
  { s with
    items := (evict s.items s.itemOrder).1
    itemOrder := (evict s.items s.itemOrder).2
    history := lastN maxSessionHistory s.history }

def rememberItem (s : Session F) (item : ItemRef) : Session F :=
  if item.id ≠ "" then enforceBounds { s with items := s.items.insert item.id item.loc }
  else enforceBounds s

def joinTail (s : Session F) (id : String) : Session F :=
  { s with itemOrder := s.itemOrder ++ [id], lastItemID := id }

/-- The place of a new id in the order: `""` appends, `"root"` inserts first, any
other id inserts after its first occurrence. -/
def insertAt (order : List String) (after id : String) : List String :=
  if after = "" then order ++ [id]
  else if after = "root" then id :: order
  else
    match order.idxOf? after with
    | some i => order.insertIdx (i + 1) id
    | none => order ++ [id]

def insertItem (s : Session F) (after id : String) : Session F :=
  let order := insertAt s.itemOrder after id
  { s with itemOrder := order, lastItemID := order.getLast?.getD "" }

def removeItem (s : Session F) (id : String) : Session F :=
  let order := s.itemOrder.erase id
  { s with itemOrder := order, lastItemID := order.getLast?.getD "" }

def joinEmittedItem (s : Session F) (item : ItemRef) : Session F :=
  let s := s.rememberItem item
  if item.id ≠ "" then s.joinTail item.id else s

def previousItemID (s : Session F) : Option String :=
  if s.lastItemID = "" then none else some s.lastItemID

def newConversationItem (s : Session F) : Session F × Option String × String :=
  let prev := s.previousItemID
  let (s, id) := s.nextID .item
  (s.joinTail id, prev, id)

/-- The announced item of a committed turn; the stored one also carries the audio. -/
def storeTurn (s : Session F) (id : String) (transcript : Field) (audio : Bytes) :
    Session F × ItemRef :=
  let part : ContentPart := { type := "input_audio", transcript := transcript }
  let (s, emitted) := s.alloc id ⟨.completed, .message "user" [part]⟩
  if audio = [] then (s.rememberItem emitted, emitted)
  else
    let (s, stored) := s.alloc id
      ⟨.completed, .message "user" [{ part with audio := some (Base64.encodeToString audio) }]⟩
    (s.rememberItem stored, emitted)

def conversationItemEvents (prev : Option String) (item : ItemRef) : List (Event F ItemRef) :=
  [.itemAdded prev item, .itemDone prev item]

end Session

end MockAgents.Realtime
