import MockAgents.Adapter.Responses
/-!
# The items of a conversation, page by page

How `conversations.go` lists the items of a conversation, and the client that asks for the page
behind the last id as long as there are more items.
-/

namespace MockAgents.Adapter

open Lib Lib.Utf8

structure ItemPage where
  data : List ConversationItem
  hasMore : Bool
  firstID : Option Bytes
  lastID : Option Bytes

def itemListEnvelope (items : List ConversationItem) (hasMore : Bool) : ItemPage :=
  ⟨items, hasMore, items.head?.map (·.id), items.getLast?.map (·.id)⟩

def itemsAfter (items : List ConversationItem) (afterID : Bytes) : List ConversationItem :=
  match items.findIdx? fun it => it.id = afterID with
  | some i => items.drop (i + 1)
  | none => items

/-- `atoi` is what `strconv.Atoi` reads. -/
def parseListLimit (atoi : Bytes → Option Int) (s : Bytes) (default : Nat) : Nat :=
  if s = [] then default
  else match atoi s with
    | none => default
    | some n => if n < 1 then default else if 100 < n then 100 else n.toNat

def Conversation.ordered (conv : Conversation) (order : Bytes) : List ConversationItem :=
  if order = bytes "asc" then conv.items else conv.items.reverse

section
variable (atoi : Bytes → Option Int) (conv : Conversation) (order limit : Bytes)

def handleListItems (after : Bytes) : ItemPage :=
  let items := conv.ordered order
  let items := if after = [] then items else itemsAfter items after
  let limit := parseListLimit atoi limit 20
  let hasMore := decide (limit < items.length)
  itemListEnvelope (if hasMore then items.take limit else items) hasMore

/-- The items a client sees in at most so many pages. -/
def follow : Nat → Bytes → Option (List ConversationItem)
  | 0, _ => none
  | pages + 1, after =>
    let page := handleListItems atoi conv order limit after
    if page.hasMore then (follow pages (page.lastID.getD [])).map (page.data ++ ·)
    else some page.data

end

end MockAgents.Adapter
