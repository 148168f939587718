import AiProxy.Agent.RateLimits

/-!
# No window is overfilled

The two queues track their logs (`SlidingWindow.Tracks`), and a replay is in flight exactly while its permit
is alive.
-/

namespace AiProxy.Agent

open SlidingWindow

theorem begin_cases (gate : ReplayGate) (now : Nat) :
    (gate.inFlight = false ∧ (prune replayWindow now gate.attempts).length < maxReplaysPerWindow ∧
      gate.begin now = (.ok (), ⟨true, prune replayWindow now gate.attempts ++ [now]⟩)) ∨
    ∃ e, gate.begin now =
      (.error e, { gate with attempts := prune replayWindow now gate.attempts }) := by
  unfold ReplayGate.begin
  dsimp only
  split
  · exact .inr ⟨_, rfl⟩
  · next hidle =>
    split
    · exact .inr ⟨_, rfl⟩
    · next hroom => exact .inl ⟨Bool.eq_false_iff.mpr hidle, not_le.mp hroom, rfl⟩

theorem reserve_cases (times : List Nat) (now count : Nat) :
    ((prune (fromSecs 60) now times).length + count ≤ maxProxyVerificationRequestsPerMinute ∧
      reserveProxyVerificationSlots times now count =
        (.ok (), prune (fromSecs 60) now times ++ List.replicate count now)) ∨
    ∃ e, reserveProxyVerificationSlots times now count =
      (.error e, prune (fromSecs 60) now times) := by
  unfold reserveProxyVerificationSlots
  dsimp only
  split
  · exact .inr ⟨_, rfl⟩
  · next hroom => exact .inl ⟨not_lt.mp hroom, rfl⟩

structure RateLimits.Inv (s : RateLimits) : Prop where
  permits : s.permits = s.gate.inFlight.toNat
  replays : Tracks replayWindow maxReplaysPerWindow s.clock s.replays s.gate.attempts
  slots : Tracks (fromSecs 60) maxProxyVerificationRequestsPerMinute s.clock s.slots s.times

theorem RateLimits.Inv.step {s s' : RateLimits} {e : RateEvent} (h : s.Inv)
    (hs : s.step e = some s') : s'.Inv := by
  have hwindow : 0 < fromSecs 60 := by decide
  unfold RateLimits.step at hs
  cases e with
  | acquireReplayPermit now =>
    dsimp only at hs
    split at hs
    · cases hs
    · next hclock =>
      have hlater := not_lt.mp hclock
      have hreplays := h.replays.prune hwindow hlater
      have hslots := h.slots.mono hlater
      rcases begin_cases s.gate now with ⟨hidle, hroom, hbegin⟩ | ⟨e, hbegin⟩
      · rw [hbegin] at hs
        cases hs
        refine ⟨?_, hreplays.use (n := 1) hroom, hslots⟩
        rw [h.permits, hidle]
        rfl
      · rw [hbegin] at hs
        cases hs
        exact ⟨h.permits, hreplays, hslots⟩
  | dropReplayPermit =>
    dsimp only at hs
    split at hs
    · cases hs
    · cases hs
      refine ⟨?_, h.replays, h.slots⟩
      have := h.permits
      have := Bool.toNat_le s.gate.inFlight
      show s.permits - 1 = 0
      omega
  | reserve now count =>
    dsimp only at hs
    split at hs
    · cases hs
    · next hclock =>
      have hlater := not_lt.mp hclock
      have hreplays := h.replays.mono hlater
      have hslots := h.slots.prune hwindow hlater
      rcases reserve_cases s.times now count with ⟨hroom, hreserve⟩ | ⟨e, hreserve⟩
      · rw [hreserve] at hs
        cases hs
        exact ⟨h.permits, hreplays, hslots.use hroom⟩
      · rw [hreserve] at hs
        cases hs
        exact ⟨h.permits, hreplays, hslots⟩

/-- In every run at most one replay is in flight and no interval of 60 seconds has more replays, or more
verification slots, than are allowed. A refused call takes uses from a queue and adds none. -/
theorem rate_limits_hold {events : List RateEvent} {s : RateLimits}
    (h : Run.exec RateLimits.step {} events = some s) :
    s.permits ≤ 1 ∧
    (∀ start, usesFrom (fromSecs 60) start s.replays ≤ maxReplaysPerWindow) ∧
    (∀ start, usesFrom (fromSecs 60) start s.slots ≤ maxProxyVerificationRequestsPerMinute) ∧
    (∀ now e gate, s.gate.begin now = (.error e, gate) →
      gate.inFlight = s.gate.inFlight ∧ gate.attempts <:+ s.gate.attempts) ∧
    ∀ now count e times, reserveProxyVerificationSlots s.times now count = (.error e, times) →
      times <:+ s.times := by
  have hinv : s.Inv := Run.exec_invariant (fun _ _ _ hi hs => RateLimits.Inv.step hi hs) h
    ⟨rfl, tracks_nil, tracks_nil⟩
  refine ⟨hinv.permits ▸ Bool.toNat_le _, hinv.replays.bounded, hinv.slots.bounded, ?_, ?_⟩
  · intro now e gate hbegin
    rcases begin_cases s.gate now with ⟨-, -, hok⟩ | ⟨e', herror⟩
    · cases hok.symm.trans hbegin
    · cases herror.symm.trans hbegin
      exact ⟨rfl, prune_suffix _⟩
  · intro now count e times hreserve
    rcases reserve_cases s.times now count with ⟨-, hok⟩ | ⟨e', herror⟩
    · cases hok.symm.trans hreserve
    · cases herror.symm.trans hreserve
      exact prune_suffix _

def busyRun : List RateEvent :=
  [.acquireReplayPermit 0, .acquireReplayPermit 5, .dropReplayPermit, .acquireReplayPermit 7,
    .reserve 8 20, .reserve 9 1]

theorem rate_limits_hold_busy : ∃ s, Run.exec RateLimits.step {} busyRun = some s ∧
    s.replays = [0, 7] ∧ s.slots = List.replicate 20 8 ∧ s.permits ≤ 1 := by
  have hrun : Run.exec RateLimits.step {} busyRun = some _ := rfl
  exact ⟨_, hrun, rfl, rfl, (rate_limits_hold hrun).1⟩

end AiProxy.Agent
