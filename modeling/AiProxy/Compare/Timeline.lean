import AiProxy.Lib.Double
import Mathlib.Algebra.GroupWithZero.Nat
import Mathlib.Data.List.Range

/-!
# The timeline of a comparison

`buildTimeline` of `session-behavior-diff.helpers.ts`: the requests of two lists of sessions, counted in
buckets of the same length. Times are whole milliseconds, and what is computed from them is rounded to
doubles.
-/

namespace AiProxy.Compare

open Double (ofInt ceilDiv floorDiv)

/-- The last time that a `Date` can hold; the first one is its negative. -/
def maxTime : Nat := 8640000000000000

/-- `Date`: the time of a text, if it is one, and the text of a time. -/
structure Dates where
  getTime : String → Option Int
  isoText : Int → String
  range : ∀ {text time}, getTime text = some time → time.natAbs ≤ maxTime

structure SessionSummary where
  startedAt : String

structure TimelineBucket where
  label : String
  startedAt : String
  leftCount : Nat
  rightCount : Nat
  delta : Int

structure Timeline where
  bucketMs : Int
  buckets : List TimelineBucket

section

variable (dates : Dates)

/-- The error is the `RangeError` of a time that no `Date` can hold. -/
def toISOString (time : Int) : Except String String :=
  if time.natAbs ≤ maxTime then .ok (dates.isoText time) else .error "Invalid time value"

def dateMs (value : String) : Int := (dates.getTime value).getD 0

def countSessionsInBucket (sessions : List SessionSummary) (bucketStart bucketMs : Int) : Nat :=
  let bucketEnd := ofInt (bucketStart + bucketMs)
  (sessions.filter fun session =>
    bucketStart ≤ dateMs dates session.startedAt && dateMs dates session.startedAt < bucketEnd).length

def buildBucket (leftSessions rightSessions : List SessionSummary) (startMs bucketMs : Int)
    (index : Nat) : Except String TimelineBucket := do
  let bucketStart := ofInt (startMs + ofInt (index * bucketMs))
  let label ← toISOString dates bucketStart
  let startedAt ← toISOString dates bucketStart
  return {
    label
    startedAt
    leftCount := countSessionsInBucket dates leftSessions bucketStart bucketMs
    rightCount := countSessionsInBucket dates rightSessions bucketStart bucketMs
    delta := 0 }

def buildTimeline (leftSessions rightSessions : List SessionSummary) : Except String Timeline :=
  match (leftSessions ++ rightSessions).map fun session => dateMs dates session.startedAt with
  | [] => .ok ⟨1000, []⟩
  | time :: times => do
    let startMs := times.foldl min time
    let endMs := times.foldl max time
    let bucketMs := max 1000 (ceilDiv (max 1 (ofInt (endMs - startMs))) 12)
    let bucketCount := min 48 (max 1 (floorDiv (ofInt (endMs - startMs)) bucketMs + 1))
    let buckets ← (List.range bucketCount.toNat).mapM
      (buildBucket dates leftSessions rightSessions startMs bucketMs)
    .ok ⟨bucketMs, buckets.map fun bucket =>
      { bucket with delta := bucket.rightCount - bucket.leftCount }⟩

/-- How many of the sessions start in the bucket. -/
def inBucket (sessions : List SessionSummary) (bucketMs start : Int) : Nat :=
  sessions.countP fun session => start ≤ dateMs dates session.startedAt &&
    dateMs dates session.startedAt < start + bucketMs

/-- The buckets start at `starts`, one after the other, and count every session once. -/
structure Timeline.CountsOnce (timeline : Timeline) (left right : List SessionSummary)
    (starts : List Int) : Prop where
  buckets : timeline.buckets.map (fun bucket => (bucket.startedAt, bucket.leftCount, bucket.rightCount)) =
    starts.map fun start => (dates.isoText start, inBucket dates left timeline.bucketMs start,
      inBucket dates right timeline.bucketMs start)
  consecutive : starts.IsChain fun a b => b = a + timeline.bucketMs
  disjoint : starts.Pairwise fun a b => a + timeline.bucketMs ≤ b
  left : (timeline.buckets.map (·.leftCount)).sum = left.length
  right : (timeline.buckets.map (·.rightCount)).sum = right.length
  few : timeline.buckets.length ≤ 13

end

end AiProxy.Compare
