import Mathlib.Data.List.TakeWhile

/-!
# Sliding windows

A queue of the times of uses, which is pruned at its front when it is consulted. The log of all uses is
kept beside it: what is in the log and no longer in the queue is too old to count in a window that a later
use falls into.
-/

namespace AiProxy.SlidingWindow

open List

variable {window limit now later n : Nat} {log queue : List Nat}

/-- Uses are popped from the front while their age has reached the window. -/
def prune (window now : Nat) (queue : List Nat) : List Nat :=
  queue.dropWhile fun use => window ≤ now - use

/-- The uses in the half-open interval of the length of the window that begins at `start`. -/
def usesFrom (window start : Nat) (log : List Nat) : Nat :=
  log.countP fun use => start ≤ use ∧ use < start + window

structure Tracks (window limit now : Nat) (log queue : List Nat) : Prop where
  bounded : ∀ start, usesFrom window start log ≤ limit
  recent : ∃ old, log = old ++ queue ∧ ∀ use ∈ old, use + window ≤ now

theorem tracks_nil : Tracks window limit now [] [] :=
  ⟨fun _ => Nat.zero_le _, [], rfl, fun _ h => absurd h not_mem_nil⟩

theorem prune_suffix (queue : List Nat) : prune window now queue <:+ queue := dropWhile_suffix _

section

variable (h : Tracks window limit now log queue)

include h

theorem Tracks.mono (hlater : now ≤ later) : Tracks window limit later log queue := by
  obtain ⟨old, hlog, hold⟩ := h.recent
  exact ⟨h.bounded, old, hlog, fun use huse => (hold use huse).trans hlater⟩

theorem Tracks.prune (hwindow : 0 < window)
    (hlater : now ≤ later) : Tracks window limit later log (prune window later queue) := by
  obtain ⟨old, rfl, hold⟩ := (h.mono hlater).recent
  refine ⟨h.bounded, old ++ queue.takeWhile fun use => window ≤ later - use, ?_, fun use huse => ?_⟩
  · rw [SlidingWindow.prune, append_assoc, takeWhile_append_dropWhile]
  · rcases mem_append.mp huse with huse | huse
    · exact hold use huse
    · have hage : window ≤ later - use := by simpa using mem_takeWhile_imp huse
      omega

/-- Only a window with `now` in it has more uses than before, and of the earlier ones those in the queue
at most. -/
theorem Tracks.use (hroom : queue.length + n ≤ limit) :
    Tracks window limit now (log ++ List.replicate n now) (queue ++ List.replicate n now) := by
  obtain ⟨old, rfl, hold⟩ := h.recent
  refine ⟨fun start => ?_, old, append_assoc .., hold⟩
  have hbounded := h.bounded start
  unfold usesFrom at hbounded ⊢
  rw [countP_append, countP_replicate]
  split
  · next hin =>
    have hnow := of_decide_eq_true hin
    have hnone : old.countP (fun use => decide (start ≤ use ∧ use < start + window)) = 0 := by
      refine countP_eq_zero.mpr fun use huse hcount => ?_
      have := hold use huse
      have := of_decide_eq_true hcount
      omega
    have hqueue := @List.countP_le_length _ (fun use => decide (start ≤ use ∧ use < start + window)) queue
    rw [countP_append, hnone]
    omega
  · exact hbounded

end

end AiProxy.SlidingWindow
