import AiProxy.Rules.ScriptGate

/-!
# Script permits are conserved
-/

namespace AiProxy.Rules.ScriptConcurrencyGate

variable {s s' : ScriptConcurrencyGate} {i available : Nat} {call : AcquireCall}

structure Inv (s : ScriptConcurrencyGate) : Prop where
  conserved : s.available + s.liveGuards = maxConcurrentScriptThreads
  refused : ∀ n, .refused n ∈ s.calls → n = 0

/-- What a thread that does not hold a permit may do with the mutex: it takes a permit, or leaves the
permits alone and gives up only if there is none. -/
structure Turn (available : Nat) (turn : Nat × AcquireCall) : Prop where
  conserved : turn.1 + (decide (turn.2 = .holding)).toNat = available
  refused : ∀ n, turn.2 = .refused n → n = 0

theorem turn_take (h : available ≠ 0) : Turn available (take available) :=
  ⟨Nat.sub_add_cancel (Nat.pos_of_ne_zero h), by rintro _ ⟨⟩⟩

theorem turn_refused (h : available = 0) : Turn available (available, .refused available) :=
  ⟨rfl, by rintro _ ⟨⟩; exact h⟩

theorem turn_check (expired : Bool) : Turn available (check available expired) := by
  unfold check
  split
  · next hnone =>
    cases expired with
    | false => exact ⟨rfl, by rintro _ ⟨⟩⟩
    | true => exact turn_refused hnone
  · next hsome => exact turn_take hsome

theorem turn_afterWait (poisoned timedOut expired : Bool) :
    Turn available (afterWait available poisoned timedOut expired) := by
  unfold afterWait
  split
  · split
    · next hnone => exact turn_refused hnone
    · next hsome => exact turn_take hsome
  · split
    · next hnone => exact turn_refused hnone.2
    · exact turn_check expired

theorem Inv.move (h : s.Inv) (hcall : s.calls[i]? = some call) {turn : Nat × AcquireCall}
    (hcount : turn.1 + (decide (turn.2 = .holding)).toNat =
      s.available + (decide (call = .holding)).toNat)
    (hrefused : ∀ n, turn.2 = .refused n → n = 0) : (s.move i turn).Inv := by
  refine ⟨?_, fun n hn => ?_⟩
  · have hset := Population.countP_set_add (p := fun c => decide (c = AcquireCall.holding)) hcall turn.2
    have hconserved := h.conserved
    unfold liveGuards at hconserved ⊢
    show turn.1 + (s.calls.set i turn.2).countP _ = _
    omega
  · rcases List.mem_or_eq_of_mem_set hn with hn | hn
    · exact h.refused n hn
    · exact hrefused n hn.symm

theorem Inv.turn (h : s.Inv) (hcall : s.calls[i]? = some call) (hidle : call ≠ .holding)
    {turn : Nat × AcquireCall} (hturn : Turn s.available turn) : (s.move i turn).Inv := by
  refine h.move hcall ?_ hturn.refused
  rw [hturn.conserved, decide_eq_false hidle]
  rfl

theorem Inv.step {e : GateEvent} (h : s.Inv) (hs : s.step e = some s') : s'.Inv := by
  cases e with
  | acquire =>
    cases hs
    refine ⟨?_, fun n hn => h.refused n ?_⟩
    · rw [← h.conserved, liveGuards, liveGuards, List.countP_append]
      rfl
    · rcases List.mem_append.mp hn with hn | hn
      · exact hn
      · cases List.mem_singleton.mp hn
  | lock i expired =>
    obtain ⟨hcall, ⟨⟩⟩ := Option.ite_none_right_eq_some.mp hs
    exact h.turn hcall (by rintro ⟨⟩) (turn_check expired)
  | wake i timedOut expired =>
    obtain ⟨hcall, ⟨⟩⟩ := Option.ite_none_right_eq_some.mp hs
    exact h.turn hcall (by rintro ⟨⟩) (turn_afterWait s.poisoned timedOut expired)
  | drop i =>
    obtain ⟨hcall, ⟨⟩⟩ := Option.ite_none_right_eq_some.mp hs
    refine h.move hcall ?_ (by rintro _ ⟨⟩)
    -- the permits are at most 64, so that the addition does not saturate
    have hle : s.available ≤ maxConcurrentScriptThreads := h.conserved ▸ Nat.le_add_right _ _
    unfold maxConcurrentScriptThreads at hle
    show saturatingSucc s.available + 0 = s.available + 1
    unfold saturatingSucc
    omega
  | poison =>
    cases hs
    exact ⟨h.conserved, h.refused⟩

/-- In every run the permits that are available and the guards that are alive are 64 together, and a call
that gave up has seen no permit at its last look. -/
theorem script_permits_conserved {events : List GateEvent}
    (h : Run.exec step new events = some s) :
    s.available + s.liveGuards = 64 ∧ ∀ n, .refused n ∈ s.calls → n = 0 := by
  have hinv : s.Inv := Run.exec_invariant (fun _ _ _ hi hs => Inv.step hi hs) h
    ⟨rfl, fun _ hn => absurd hn List.not_mem_nil⟩
  exact ⟨hinv.conserved, hinv.refused⟩

theorem script_permits_conserved_one : ∃ s, Run.exec step new
      [.acquire, .lock 0 false, .acquire, .lock 1 false, .poison, .drop 0] = some s ∧
    s.available + s.liveGuards = 64 := by
  have hrun : Run.exec step new
      [.acquire, .lock 0 false, .acquire, .lock 1 false, .poison, .drop 0] = some _ := rfl
  exact ⟨_, hrun, (script_permits_conserved hrun).1⟩

end AiProxy.Rules.ScriptConcurrencyGate
