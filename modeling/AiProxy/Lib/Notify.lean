import Mathlib.Data.List.Basic

/-!
# A single-permit notification with a queue of waiters

`notifyOne` wakes the oldest waiter, or stores the permit when nobody waits; `notifyWaiters` wakes
everybody who waits and stores nothing; `poll` takes a stored permit or joins the queue. A permit is
never stored while somebody waits: the structure carries that fact.
-/

namespace AiProxy

structure Notify (ι : Type*) where
  permit : Bool
  waiters : List ι
  quiet : waiters ≠ [] → permit = false

namespace Notify

variable {ι : Type*} (n : Notify ι)

def new : Notify ι := ⟨false, [], fun _ => rfl⟩

/-- The oldest waiter is woken; with no waiter the permit is stored. -/
def notifyOne : Option ι × Notify ι :=
  match n.waiters, n.quiet with
  | [], _ => (none, ⟨true, [], fun h => absurd rfl h⟩)
  | w :: ws, hq => (some w, ⟨n.permit, ws, fun _ => hq (List.cons_ne_nil w ws)⟩)

def notifyWaiters : Notify ι := ⟨n.permit, [], fun h => absurd rfl h⟩

/-- `i` waits: it takes a stored permit, and is done, or joins the queue. -/
def poll (i : ι) : Bool × Notify ι :=
  if n.permit then (true, ⟨false, n.waiters, fun _ => rfl⟩)
  else (false, ⟨false, n.waiters ++ [i], fun _ => rfl⟩)

/-- `i` stops waiting. -/
def forget [DecidableEq ι] (i : ι) : Notify ι :=
  ⟨n.permit, n.waiters.filter (· ≠ i), fun h => n.quiet fun hw => h (by rw [hw]; rfl)⟩

variable {n}

theorem notifyOne_nil (h : n.waiters = []) : n.notifyOne.1 = none ∧ n.notifyOne.2.waiters = [] := by
  obtain ⟨permit, waiters, quiet⟩ := n
  cases h
  exact ⟨rfl, rfl⟩

theorem notifyOne_cons {w : ι} {ws : List ι} (h : n.waiters = w :: ws) :
    n.notifyOne.1 = some w ∧ n.notifyOne.2.waiters = ws := by
  obtain ⟨permit, waiters, quiet⟩ := n
  cases h
  exact ⟨rfl, rfl⟩

theorem poll_permit (h : n.permit = true) (i : ι) :
    (n.poll i).1 = true ∧ (n.poll i).2.waiters = n.waiters := by
  simp [poll, h]

theorem poll_queue (h : n.permit = false) (i : ι) :
    (n.poll i).1 = false ∧ (n.poll i).2.waiters = n.waiters ++ [i] := by
  simp [poll, h]

@[simp] theorem mem_forget [DecidableEq ι] {i j : ι} :
    j ∈ (n.forget i).waiters ↔ j ∈ n.waiters ∧ j ≠ i := by
  simp [forget]

end Notify

end AiProxy
