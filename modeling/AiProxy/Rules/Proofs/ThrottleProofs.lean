import AiProxy.Rules.Throttle

/-!
# Proofs: the throttled response body

What a poll yields and what it leaves waiting is what was waiting before and what the inner body has
delivered; so nothing is lost, doubled or reordered over any sequence of polls.
-/

namespace AiProxy.Rules

open List

variable {E : Type}

theorem dataTokens_append (a b : List UInt8) :
    (dataTokens (a ++ b) : List (Token E)) = dataTokens a ++ dataTokens b := map_append

namespace ThrottledBody

variable {body : ThrottledBody E} {call : PollCall}
variable {pending : PendingChunk}

theorem waiting_of_pending (h : body.pending = some pending) :
    body.waiting = pending.remaining := by
  unfold waiting
  rw [h]

theorem waiting_of_none (h : body.pending = none) : body.waiting = [] := by
  unfold waiting
  rw [h]

/-- The cases of a poll while nothing is waiting: the inner body has ended, has nothing yet, gives a
data frame that has to wait, or gives something that is passed on. -/
theorem pullFrame_cases (body : ThrottledBody E) (call : PollCall) :
    (body.inner.script = [] ∧ body.pullFrame call =
      (.ready none, { body with inner := { body.inner with script := [], waker := none } })) ∨
    (∃ rest, body.inner.script = .pending :: rest ∧ body.pullFrame call =
      (.pending, { body with
        inner := { body.inner with script := rest, waker := some call.waker } })) ∨
    (∃ data rest, body.inner.script = .ready (some (.ok (.data data))) :: rest ∧
      body.downloadKbps ≠ 0 ∧ data ≠ [] ∧ body.pullFrame call =
        (.pending, { body with
          inner := { body.inner with script := rest, waker := none } }.armChunkSleep data call)) ∨
    ∃ item rest, body.inner.script = .ready item :: rest ∧
      (body.downloadKbps ≠ 0 → ∀ data, item = some (.ok (.data data)) → data = []) ∧
      body.pullFrame call =
        (.ready item, { body with inner := { body.inner with script := rest, waker := none } }) := by
  unfold pullFrame InnerBody.pollFrame
  cases hscript : body.inner.script with
  | nil => exact .inl ⟨rfl, rfl⟩
  | cons polled rest =>
    cases polled with
    | pending => exact .inr (.inl ⟨rest, rfl, rfl⟩)
    | ready item =>
      rcases item with _ | e | data | headers
      · refine .inr (.inr (.inr ⟨none, rest, rfl, fun _ data hdata => ?_, rfl⟩))
        cases hdata
      · refine .inr (.inr (.inr ⟨_, rest, rfl, fun _ data hdata => ?_, rfl⟩))
        cases hdata
      · by_cases hnow : body.downloadKbps = 0 ∨ data.isEmpty = true
        · refine .inr (.inr (.inr ⟨_, rest, rfl, fun hkbps data' hdata => ?_, if_pos hnow⟩))
          cases hdata
          exact List.isEmpty_iff.mp (hnow.resolve_left hkbps)
        · refine .inr (.inr (.inl ⟨data, rest, rfl, fun h => hnow (.inl h), ?_, if_neg hnow⟩))
          exact fun h => hnow (.inr (List.isEmpty_iff.mpr h))
      · refine .inr (.inr (.inr ⟨_, rest, rfl, fun _ data hdata => ?_, rfl⟩))
        cases hdata

/-- What a poll yields and leaves waiting; `delivered` is what it has pulled. -/
structure PollEffect (body : ThrottledBody E) (polled : FramePoll E) (after : ThrottledBody E) :
    Prop where
  kbps : after.downloadKbps = body.downloadKbps
  tokens : ∃ delivered, body.inner.script = delivered ++ after.inner.script ∧
    polled.tokens ++ dataTokens after.waiting =
      dataTokens body.waiting ++ delivered.flatMap Poll.tokens
  bounded : body.downloadKbps ≠ 0 → ∀ bytes, polled = .ready (some (.ok (.data bytes))) →
    bytes.length ≤ throttleChunkBytes

theorem pollPending_effect (h : body.pending = some pending) :
    PollEffect body (body.pollPending pending call).1 (body.pollPending pending call).2 := by
  have hwaiting := waiting_of_pending h
  unfold pollPending
  split
  · -- the chunk is yielded and the rest goes on waiting
    generalize htake : min throttleChunkBytes pending.remaining.length = take
    have hrest : ∀ after : ThrottledBody E, after.waiting = pending.remaining.drop take →
        (Poll.tokens (.ready (some (.ok (.data (pending.remaining.take take))))) : List (Token E)) ++
          dataTokens after.waiting = dataTokens body.waiting ++ [] := by
      intro after hafter
      rw [hafter, hwaiting, append_nil]
      exact (dataTokens_append _ _).symm.trans (by rw [take_append_drop])
    have hlength : ∀ bytes, (.ready (some (.ok (.data (pending.remaining.take take)))) :
        FramePoll E) = .ready (some (.ok (.data bytes))) → bytes.length ≤ throttleChunkBytes := by
      intro bytes hbytes
      cases hbytes
      rw [length_take]
      omega
    dsimp only
    split
    · next hempty =>
      refine ⟨rfl, ⟨[], rfl, hrest _ ?_⟩, fun _ => hlength⟩
      exact (List.isEmpty_iff.mp hempty).symm
    · exact ⟨rfl, ⟨[], rfl, hrest _ rfl⟩, fun _ => hlength⟩
  · refine ⟨rfl, ⟨[], rfl, ?_⟩, fun _ bytes hbytes => ?_⟩
    · rw [hwaiting]
      exact (append_nil _).symm
    · cases hbytes

theorem pullFrame_effect (h : body.pending = none) :
    PollEffect body (body.pullFrame call).1 (body.pullFrame call).2 := by
  have hwaiting := waiting_of_none h
  have hnone : ∀ inner : InnerBody E, ({ body with inner := inner } : ThrottledBody E).waiting = [] :=
    fun inner => waiting_of_none h
  rcases pullFrame_cases body call with ⟨hscript, heq⟩ | ⟨rest, hscript, heq⟩ |
    ⟨data, rest, hscript, -, -, heq⟩ | ⟨item, rest, hscript, hempty, heq⟩
  · rw [heq]
    refine ⟨rfl, ⟨[], hscript, ?_⟩, fun _ bytes hbytes => ?_⟩
    · rw [hwaiting, hnone]
      rfl
    · cases hbytes
  · rw [heq]
    refine ⟨rfl, ⟨[.pending], hscript, ?_⟩, fun _ bytes hbytes => ?_⟩
    · rw [hwaiting, hnone]
      rfl
    · cases hbytes
  · rw [heq]
    refine ⟨rfl, ⟨[.ready (some (.ok (.data data)))], hscript, ?_⟩, fun _ bytes hbytes => ?_⟩
    · rw [hwaiting, flatMap_singleton]
      rfl
    · cases hbytes
  · rw [heq]
    refine ⟨rfl, ⟨[.ready item], hscript, ?_⟩, fun hkbps bytes hbytes => ?_⟩
    · rw [hwaiting, hnone, flatMap_singleton]
      exact append_nil _
    · cases hbytes
      rw [hempty hkbps bytes rfl]
      exact Nat.zero_le _

theorem pollFrame_effect (body : ThrottledBody E) (call : PollCall) :
    PollEffect body (body.pollFrame call).1 (body.pollFrame call).2 := by
  unfold pollFrame
  cases h : body.pending with
  | some pending => exact pollPending_effect h
  | none => exact pullFrame_effect h

theorem pollAll_tokens (body : ThrottledBody E) (calls : List PollCall) :
    ∃ delivered, body.inner.script = delivered ++ (body.pollAll calls).2.inner.script ∧
      (body.pollAll calls).1.flatMap Poll.tokens ++ dataTokens (body.pollAll calls).2.waiting =
        dataTokens body.waiting ++ delivered.flatMap Poll.tokens := by
  induction calls generalizing body with
  | nil => exact ⟨[], rfl, (append_nil _).symm⟩
  | cons call calls ih =>
    obtain ⟨first, hscript, hfirst⟩ := (pollFrame_effect body call).tokens
    obtain ⟨later, hscript', hlater⟩ := ih (body.pollFrame call).2
    rw [pollAll]
    refine ⟨first ++ later, ?_, ?_⟩
    · rw [append_assoc, ← hscript']
      exact hscript
    · rw [flatMap_cons, append_assoc, hlater, ← append_assoc, hfirst, flatMap_append, append_assoc]

theorem pollAll_bounded {body : ThrottledBody E} (hkbps : body.downloadKbps ≠ 0)
    (calls : List PollCall) {bytes : List UInt8}
    (h : .ready (some (.ok (.data bytes))) ∈ (body.pollAll calls).1) :
    bytes.length ≤ throttleChunkBytes := by
  induction calls generalizing body with
  | nil => exact absurd h not_mem_nil
  | cons call calls ih =>
    have heffect := pollFrame_effect body call
    have hkbps' : (body.pollFrame call).2.downloadKbps ≠ 0 := by
      rw [heffect.kbps]
      exact hkbps
    rcases mem_cons.mp h with h | h
    · exact heffect.bounded hkbps bytes h.symm
    · exact ih hkbps' h

/-- Nothing is waiting and the inner body has nothing left to give. -/
def Exhausted (body : ThrottledBody E) : Prop :=
  body.pending = none ∧ ∀ polled ∈ body.inner.script, ∀ item, polled ≠ .ready (some item)

theorem exhausted_of_isEndStream (h : body.isEndStream = true) : body.Exhausted := by
  unfold isEndStream at h
  rw [Bool.and_eq_true, Option.isNone_iff_eq_none] at h
  exact ⟨h.1, body.inner.endStream_sound _ h.2⟩

theorem Exhausted.pollFrame (h : body.Exhausted) (call : PollCall) :
    (∀ item, (body.pollFrame call).1 ≠ .ready (some item)) ∧ (body.pollFrame call).2.Exhausted := by
  obtain ⟨hpending, hscript⟩ := h
  have hpoll : body.pollFrame call = body.pullFrame call := by
    unfold ThrottledBody.pollFrame
    rw [hpending]
  rw [hpoll]
  rcases pullFrame_cases body call with ⟨hnil, heq⟩ | ⟨rest, hcons, heq⟩ |
    ⟨data, rest, hcons, -, -, heq⟩ | ⟨item, rest, hcons, -, heq⟩
  · rw [heq]
    exact ⟨(fun item hitem => nomatch hitem), hpending, forall_mem_nil _⟩
  · rw [heq]
    refine ⟨(fun item hitem => nomatch hitem), hpending, fun polled hmem => ?_⟩
    exact hscript polled (hcons ▸ mem_cons_of_mem _ hmem)
  · exact absurd rfl (hscript _ (hcons ▸ mem_cons_self) _)
  · rw [heq]
    refine ⟨fun item' hitem => ?_, hpending, fun polled hmem => ?_⟩
    · cases hitem
      exact hscript _ (hcons ▸ mem_cons_self) item' rfl
    · exact hscript polled (hcons ▸ mem_cons_of_mem _ hmem)

theorem Exhausted.pollAll (h : body.Exhausted) (calls : List PollCall) :
    ∀ polled ∈ (body.pollAll calls).1, ∀ item, polled ≠ .ready (some item) := by
  induction calls generalizing body with
  | nil => exact forall_mem_nil _
  | cons call calls ih =>
    obtain ⟨hfirst, hrest⟩ := h.pollFrame call
    exact forall_mem_cons.mpr ⟨hfirst, ih hrest⟩

theorem Sleep.poll_waker_iff {sleep : Sleep} {waker : Waker} {now : Nat}
    (hnew : sleep.waker = none) :
    (sleep.poll waker now).waker = some waker ↔ now < sleep.deadline := by
  unfold Sleep.poll Sleep.elapsed
  by_cases h : sleep.deadline ≤ now
  · rw [if_pos (decide_eq_true h), hnew]
    exact iff_of_false (fun hsome => nomatch hsome) (Nat.not_lt.mpr h)
  · rw [if_neg (by simpa using h)]
    exact iff_of_true rfl (Nat.not_le.mp h)

theorem pollPending_wakes (h : (body.pollPending pending call).1 = .pending) :
    (body.pollPending pending call).2.Wakes call.waker := by
  unfold pollPending at h ⊢
  by_cases helapsed : pending.sleep.elapsed call.now = true
  · rw [if_pos helapsed] at h
    cases h
  · rw [if_neg helapsed]
    refine .inl ⟨_, rfl, ?_⟩
    unfold Sleep.poll
    rw [if_neg helapsed]

theorem pullFrame_wakes_iff (hpending : body.pending = none) :
    ((body.pullFrame call).1 = .pending → (body.pullFrame call).2.Wakes call.waker) ↔
      ¬ body.ArmsElapsedSleep call := by
  rcases pullFrame_cases body call with ⟨hscript, heq⟩ | ⟨rest, hscript, heq⟩ |
    ⟨data, rest, hscript, hkbps, hdata, heq⟩ | ⟨item, rest, hscript, hempty, heq⟩
  · rw [heq]
    refine iff_of_true (fun h => nomatch h) ?_
    rintro ⟨data, rest, -, hscript', -⟩
    cases hscript.symm.trans hscript'
  · rw [heq]
    refine iff_of_true (fun _ => .inr rfl) ?_
    rintro ⟨data, rest', -, hscript', -⟩
    cases hscript.symm.trans hscript'
  · -- the new timer has the waker iff it had not elapsed
    rw [heq]
    have hwakes : ({ body with
        inner := { body.inner with script := rest, waker := none } }.armChunkSleep data call).Wakes
          call.waker ↔ call.checkedAt < call.createdAt +
            chunkDelayMs (min throttleChunkBytes data.length) body.downloadKbps := by
      constructor
      · rintro (⟨pending, harmed, hwaker⟩ | hinner)
        · cases harmed
          exact (Sleep.poll_waker_iff rfl).mp hwaker
        · cases hinner
      · exact fun hlt => .inl ⟨_, rfl, (Sleep.poll_waker_iff rfl).mpr hlt⟩
    constructor
    · rintro h ⟨data', rest', -, hscript', -, -, hle⟩
      cases hscript.symm.trans hscript'
      exact absurd (hwakes.mp (h rfl)) (Nat.not_lt.mpr hle)
    · intro hnot _
      refine hwakes.mpr (Nat.not_le.mp fun hle => hnot ?_)
      exact ⟨data, rest, hpending, hscript, hkbps, hdata, hle⟩
  · rw [heq]
    refine iff_of_true (fun h => nomatch h) ?_
    rintro ⟨data, rest', -, hscript', hkbps, hdata, -⟩
    cases hscript.symm.trans hscript'
    exact hdata (hempty hkbps data rfl)

/-- Wakers. For every body in any state, every rate and every poll: a poll that returns `Pending`
has registered the waker of the task with the armed timer or with the inner body, if and only if it
has not armed a timer that had elapsed before it was polled for the first time. -/
theorem pending_poll_wakes_iff (body : ThrottledBody E) (call : PollCall) :
    ((body.pollFrame call).1 = .pending → (body.pollFrame call).2.Wakes call.waker) ↔
      ¬ body.ArmsElapsedSleep call := by
  unfold pollFrame
  cases h : body.pending with
  | some pending =>
    refine iff_of_true pollPending_wakes ?_
    rintro ⟨data, rest, hnone, -⟩
    cases h.symm.trans hnone
  | none => exact pullFrame_wakes_iff h

namespace Sample

def oneByte : InnerBody Unit where
  script := [.ready (some (.ok (.data [120])))]
  waker := none
  endStream rest := rest.isEmpty
  endStream_sound := by
    intro rest hempty r hr
    rw [List.isEmpty_iff.mp hempty] at hr
    exact absurd hr List.not_mem_nil

/-- The task is preempted for 8 ms between the creation of the timer and its first poll. -/
def preempted : PollCall := ⟨7, 0, 0, 8, by decide, by decide⟩

end Sample

/-- At 1 kbps one byte waits for 8 ms. The poll returns `Pending` and no waker is registered
anywhere, while the timer has already elapsed. -/
theorem stalled_poll :
    ((new Sample.oneByte 1).pollFrame Sample.preempted).1 = .pending ∧
      ((new Sample.oneByte 1).pollFrame Sample.preempted).2.pending = some ⟨[120], ⟨8, none⟩⟩ ∧
      ¬ ((new Sample.oneByte 1).pollFrame Sample.preempted).2.Wakes Sample.preempted.waker := by
  refine ⟨rfl, by decide, ?_⟩
  rintro (⟨pending, hpending, hwaker⟩ | hwaker)
  · cases hpending
    cases hwaker
  · cases hwaker

end ThrottledBody

end AiProxy.Rules
