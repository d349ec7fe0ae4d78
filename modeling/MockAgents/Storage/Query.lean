import Mathlib
/-!
# Queries of the interaction log

`sqlite.go`: the conditions of `Query` and its page, over rows with the columns that the
conditions read.  `LIKE` is SQLite's as documented: a character matches itself or, in ASCII, its
other case, since no pragma says otherwise.
-/

namespace MockAgents.Storage

structure InteractionLog where
  id : Int
  timestamp : String
  tenantID : String
  agentName : String
  sessionID : String
deriving DecidableEq

structure InteractionFilter where
  tenantID : String := ""
  filterTenantID : Bool := false
  agentName : String := ""
  sessionID : String := ""
  sessionPrefix : String := ""
  since : String := ""
  untilTime : String := ""
  limit : Int := 0
  offset : Int := 0

def likeChar (c : Char) (rest : List Char → Bool) : List Char → Bool
  | [] => false
  | d :: text => c.toLower = d.toLower && rest text

/-- `text LIKE pattern ESCAPE '\'`. -/
def like : List Char → List Char → Bool
  | [] => List.isEmpty
  | '%' :: pattern => fun text => text.tails.any (like pattern)
  | '_' :: pattern => fun text => !text.isEmpty && like pattern text.tail
  | ['\\'] => fun _ => false
  | '\\' :: c :: pattern => likeChar c (like pattern)
  | c :: pattern => likeChar c (like pattern)

def escapeLikePrefix (pre : List Char) : List Char :=
  pre.flatMap fun c => if c = '\\' ∨ c = '%' ∨ c = '_' then ['\\', c] else [c]

def defaultLimit : Int := 50

def maxLimit : Int := 1000

namespace InteractionFilter

variable (normalizeTimestamp : String → String) (filter : InteractionFilter)

def selects (row : InteractionLog) : Bool :=
  (!filter.filterTenantID || row.tenantID = filter.tenantID) &&
    (filter.agentName = "" || row.agentName = filter.agentName) &&
    (if filter.sessionID ≠ "" then decide (row.sessionID = filter.sessionID)
      else filter.sessionPrefix = "" ||
        like (escapeLikePrefix filter.sessionPrefix.toList ++ ['%']) row.sessionID.toList) &&
    (filter.since = "" || normalizeTimestamp filter.since ≤ row.timestamp) &&
    (filter.untilTime = "" || row.timestamp ≤ normalizeTimestamp filter.untilTime)

/-- `ORDER BY id DESC LIMIT … OFFSET …`. -/
def page (rows : List InteractionLog) : List InteractionLog :=
  let limit := min (if filter.limit ≤ 0 then defaultLimit else filter.limit) maxLimit
  ((rows.mergeSort fun a b => b.id ≤ a.id).drop filter.offset.toNat).take limit.toNat

def query (rows : List InteractionLog) : List InteractionLog :=
  filter.page (rows.filter (filter.selects normalizeTimestamp))

end InteractionFilter

end MockAgents.Storage
