import AiProxy.Http.Headers
import Mathlib.Algebra.Group.Nat.Defs

/-!
# The throttled response body

`ThrottledBody` passes the frames of an inner body on at a configured rate: a data frame is cut into
chunks, and each chunk waits for a timer of its own.

The inner body is given by the answers of its polls, and a poll comes with the times at which it looks
at the clock. Polling a timer that has not elapsed, or an inner body that has nothing yet, registers the
waker of the poll; polling a timer that has elapsed registers nothing.
-/

namespace AiProxy.Rules

open Http (HeaderMap)

def maxThrottleTransferDelayMs : Nat := 60000

def throttleChunkBytes : Nat := 16 * 1024

/-- The time that this many bytes take at this rate, rounded up. -/
def transferDelayMs (byteCount kbps : Nat) : Nat :=
  if byteCount = 0 ∨ kbps = 0 then 0
  else
    let bits := byteCount * 8
    let bitsPerSecond := kbps * 1024
    min ((bits * 1000 + bitsPerSecond - 1) / bitsPerSecond) (2 ^ 64 - 1)

def chunkDelayMs (chunkBytes downloadKbps : Nat) : Nat :=
  min (transferDelayMs chunkBytes downloadKbps) maxThrottleTransferDelayMs

/-! ### Polls -/

inductive Poll (α : Type) where
  | pending
  | ready (a : α)

inductive Frame where
  | data (bytes : List UInt8)
  | trailers (headers : HeaderMap)

/-- The answer of `poll_frame`: `ready none` is the end of the body. -/
abbrev FramePoll (E : Type) := Poll (Option (Except E Frame))

abbrev Waker := Nat

/-- A call of `poll_frame`: the waker of the task, and the times at which the call polls the armed
timer, creates a new one and polls the new one. -/
structure PollCall where
  waker : Waker
  now : Nat
  createdAt : Nat
  checkedAt : Nat
  now_le : now ≤ createdAt
  created_le : createdAt ≤ checkedAt

structure Sleep where
  deadline : Nat
  waker : Option Waker
  deriving DecidableEq

namespace Sleep

def new (createdAt delayMs : Nat) : Sleep := ⟨createdAt + delayMs, none⟩

def elapsed (sleep : Sleep) (now : Nat) : Bool := sleep.deadline ≤ now

def poll (sleep : Sleep) (waker : Waker) (now : Nat) : Sleep :=
  if sleep.elapsed now then sleep else { sleep with waker := some waker }

end Sleep

variable {E : Type}

/-- A body whose polls give these answers, one after the other, and the end of the body afterwards.
`is_end_stream` may say that no frame is left only if this is so. -/
structure InnerBody (E : Type) where
  script : List (FramePoll E)
  waker : Option Waker
  endStream : List (FramePoll E) → Bool
  endStream_sound : ∀ rest, endStream rest = true → ∀ r ∈ rest, ∀ item, r ≠ .ready (some item)

namespace InnerBody

/-- A waker that was registered has been used by the time the body is ready. -/
def pollFrame (body : InnerBody E) (waker : Waker) : FramePoll E × InnerBody E :=
  match body.script with
  | [] => (.ready none, { body with waker := none })
  | .pending :: rest => (.pending, { body with script := rest, waker := some waker })
  | .ready item :: rest => (.ready item, { body with script := rest, waker := none })

def isEndStream (body : InnerBody E) : Bool := body.endStream body.script

end InnerBody

structure PendingChunk where
  remaining : List UInt8
  sleep : Sleep
  deriving DecidableEq

structure ThrottledBody (E : Type) where
  inner : InnerBody E
  downloadKbps : Nat
  pending : Option PendingChunk

namespace ThrottledBody

def new (inner : InnerBody E) (downloadKbps : Nat) : ThrottledBody E := ⟨inner, downloadKbps, none⟩

/-- A timer for the first chunk of the bytes, polled once. -/
def newSleep (body : ThrottledBody E) (data : List UInt8) (call : PollCall) : Sleep :=
  (Sleep.new call.createdAt (chunkDelayMs (min throttleChunkBytes data.length)
    body.downloadKbps)).poll call.waker call.checkedAt

def armChunkSleep (body : ThrottledBody E) (data : List UInt8) (call : PollCall) :
    ThrottledBody E :=
  { body with pending := some ⟨data, body.newSleep data call⟩ }

/-- A chunk is waiting: yield it if its timer has elapsed, and arm a timer for the rest. -/
def pollPending (body : ThrottledBody E) (pending : PendingChunk) (call : PollCall) :
    FramePoll E × ThrottledBody E :=
  if pending.sleep.elapsed call.now then
    let take := min throttleChunkBytes pending.remaining.length
    let rest := pending.remaining.drop take
    (.ready (some (.ok (.data (pending.remaining.take take)))),
      if rest.isEmpty then { body with pending := none } else body.armChunkSleep rest call)
  else
    (.pending,
      { body with pending := some { pending with sleep := pending.sleep.poll call.waker call.now } })

/-- Nothing is waiting: pull the next frame of the inner body. -/
def pullFrame (body : ThrottledBody E) (call : PollCall) : FramePoll E × ThrottledBody E :=
  let (polled, inner) := body.inner.pollFrame call.waker
  let body := { body with inner := inner }
  match polled with
  | .ready (some (.ok (.data data))) =>
    if body.downloadKbps = 0 ∨ data.isEmpty then (.ready (some (.ok (.data data))), body)
    else (.pending, body.armChunkSleep data call)
  | polled => (polled, body)

def pollFrame (body : ThrottledBody E) (call : PollCall) : FramePoll E × ThrottledBody E :=
  match body.pending with
  | some pending => body.pollPending pending call
  | none => body.pullFrame call

def isEndStream (body : ThrottledBody E) : Bool := body.pending.isNone && body.inner.isEndStream

def pollAll (body : ThrottledBody E) : List PollCall → List (FramePoll E) × ThrottledBody E
  | [] => ([], body)
  | call :: calls =>
    let (polled, body) := body.pollFrame call
    let (rest, body) := body.pollAll calls
    (polled :: rest, body)

end ThrottledBody

/-- The unit in which the contents of a body are compared: frame boundaries between data do not
count, and trailers and errors keep their place among the bytes. -/
inductive Token (E : Type) where
  | byte (b : UInt8)
  | trailers (headers : HeaderMap)
  | error (e : E)

def dataTokens (bytes : List UInt8) : List (Token E) := bytes.map .byte

def Poll.tokens : FramePoll E → List (Token E)
  | .ready (some (.ok (.data bytes))) => dataTokens bytes
  | .ready (some (.ok (.trailers headers))) => [.trailers headers]
  | .ready (some (.error e)) => [.error e]
  | _ => []

namespace ThrottledBody

/-- The bytes that the inner body has delivered and that are still to be produced. -/
def waiting (body : ThrottledBody E) : List UInt8 :=
  match body.pending with
  | some pending => pending.remaining
  | none => []

/-- The waker is registered with the armed timer or with the inner body. -/
def Wakes (body : ThrottledBody E) (waker : Waker) : Prop :=
  (∃ pending, body.pending = some pending ∧ pending.sleep.waker = some waker) ∨
    body.inner.waker = some waker

/-- The poll pulls a data frame that has to wait, and its new timer has elapsed before it is polled
for the first time. -/
def ArmsElapsedSleep (body : ThrottledBody E) (call : PollCall) : Prop :=
  ∃ data rest, body.pending = none ∧
    body.inner.script = .ready (some (.ok (.data data))) :: rest ∧
    body.downloadKbps ≠ 0 ∧ data ≠ [] ∧
    call.createdAt + chunkDelayMs (min throttleChunkBytes data.length) body.downloadKbps ≤
      call.checkedAt

end ThrottledBody

end AiProxy.Rules
