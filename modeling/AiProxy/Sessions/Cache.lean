import AiProxy.Lib.KeyedList
import AiProxy.Lib.Regex

/-!
# The session cache

`SessionCache`: the list of the summaries, with its cap, and the bounded cache of the details. Each of its
methods holds one mutex from its first line to its last, so a method is a function of the cache. What a
detail holds besides its identifier and its summary is copied and never read (`Content`).
-/

namespace AiProxy.Sessions

structure SessionFailure where
  origin : Text
  kind : Text
  message : Text
  deriving DecidableEq

structure ProxySessionSummary where
  id : Text
  method : Text
  host : Text
  path : Text
  protocol : Text
  scheme : Text
  httpVersion : Text
  transportProtocol : Text
  applicationProtocol : Text
  startedAt : Text
  finishedAt : Text
  durationMs : Nat
  sizeBytes : Nat
  statusCode : Nat
  url : Text
  responseMimeType : Option Text
  failure : Option SessionFailure
  deriving DecidableEq

structure ProxySessionDetail (Content : Type) where
  id : Text
  summary : ProxySessionSummary
  content : Content
  deriving DecidableEq

/-- `HashSet<String>` of hosts. -/
abbrev FocusedHosts := List Text

def sessionSummaryMax : Nat := 15000

/-- The oldest summary of a host that is not focused, or the oldest one. -/
def selectEvictionIndex (summaries : List ProxySessionSummary) (focusedHosts : FocusedHosts) : Nat :=
  if focusedHosts.isEmpty then 0
  else (summaries.findIdx? fun s => !focusedHosts.contains s.host).getD 0

/-- The loop of `upsert_summary` over the cap, at most `fuel` times: what stays and the identifiers that
were removed. -/
def evictOver (summaryMax : Nat) (focusedHosts : FocusedHosts) :
    Nat → List ProxySessionSummary → List ProxySessionSummary × List Text
  | 0, summaries => (summaries, [])
  | fuel + 1, summaries =>
    if summaryMax < summaries.length then
      let index := selectEvictionIndex summaries focusedHosts
      match summaries[index]? with
      | some removed =>
        let (kept, removedIds) := evictOver summaryMax focusedHosts fuel (summaries.eraseIdx index)
        (kept, removed.id :: removedIds)
      | none => (summaries, [])
    else (summaries, [])

def upsertSummary (summaryMax : Nat) (summaries : List ProxySessionSummary)
    (summary : ProxySessionSummary) (focusedHosts : FocusedHosts) :
    List ProxySessionSummary × List Text :=
  let listed := KeyedList.upsert (·.id) summary summaries
  evictOver summaryMax focusedHosts listed.length listed

def findSummary (summaries : List ProxySessionSummary) (sessionId : Text) :
    Option ProxySessionSummary :=
  KeyedList.lookup (·.id) sessionId summaries

def removeSummaries (summaries : List ProxySessionSummary) (ids : List Text) :
    List ProxySessionSummary :=
  KeyedList.without (·.id) ids summaries

def retainSummaries (summaries : List ProxySessionSummary) (keepId : Text) :
    List ProxySessionSummary × List Text :=
  (summaries.filter (·.id = keepId), (summaries.filter (·.id ≠ keepId)).map (·.id))

def clearSummaries (summaries : List ProxySessionSummary) : List ProxySessionSummary × List Text :=
  ([], summaries.map (·.id))

def sessionDetailCacheCapacity : Nat := 1000

structure DetailState (Content : Type) where
  map : List (Text × ProxySessionDetail Content)
  order : List Text
  deriving DecidableEq

variable {Content : Type}

namespace DetailState

def empty : DetailState Content := ⟨[], []⟩

def get (state : DetailState Content) (sessionId : Text) : Option (ProxySessionDetail Content) :=
  (KeyedList.lookup Prod.fst sessionId state.map).map Prod.snd

def touch (order : List Text) (sessionId : Text) : List Text := order.erase sessionId ++ [sessionId]

def tryGetDetail (state : DetailState Content) (sessionId : Text) :
    Option (ProxySessionDetail Content) × DetailState Content :=
  match state.get sessionId with
  | some detail => (some detail, { state with order := touch state.order sessionId })
  | none => (none, state)

/-- `insert_detail` with the evicted identifiers, which the loop pops from the front of the order. -/
def insertDetail (state : DetailState Content) (sessionId : Text)
    (detail : ProxySessionDetail Content) : List Text × DetailState Content :=
  let order := touch state.order sessionId
  let evicted := order.take (order.length - sessionDetailCacheCapacity)
  (evicted,
    { map := KeyedList.without Prod.fst evicted
        (KeyedList.upsert Prod.fst (sessionId, detail) state.map)
      order := order.drop (order.length - sessionDetailCacheCapacity) })

def refreshDetailIfCached (state : DetailState Content) (sessionId : Text)
    (detail : ProxySessionDetail Content) : DetailState Content :=
  if (state.get sessionId).isSome then
    { state with map := KeyedList.upsert Prod.fst (sessionId, detail) state.map }
  else state

def removeDetails (state : DetailState Content) (ids : List Text) : DetailState Content where
  map := KeyedList.without Prod.fst ids state.map
  order := state.order.filter fun id => !ids.contains id

def clearDetails (_ : DetailState Content) : DetailState Content := empty

end DetailState

end AiProxy.Sessions
