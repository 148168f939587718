import AiProxy.Tunnel.Relay

/-!
# What the relay delivers, and when it gives up

One invariant carries both: of each direction, what was written and what is in flight is what was read,
and a writer is shut down once, at the end of its stream; and the deadline is an idle window after every
read that was relayed.
-/

namespace AiProxy.Tunnel

open Option List
open RelayPhase (inFlight uncounted)

variable {idle : Nat} {s s' : RelayState} {stream : Direction → List UInt8}

structure RelayState.Inv (idle : Nat) (stream : Direction → List UInt8) (s : RelayState) : Prop where
  flow : ∀ d, (s.flow d).Ok (stream d) d s.phase
  finished : ∀ a b, s.phase = .returned (.done a b) → (∀ d, (s.flow d).done = true) ∧
    a = (s.flow .clientToUpstream).count ∧ b = (s.flow .upstreamToClient).count
  past : ∀ r ∈ s.relayed, r.readAt ≤ s.clock ∧ r.readAt + idle ≤ s.idleDeadline
  writing : ∀ d chunk rest readAt, s.phase = .writing d chunk rest readAt →
    readAt ≤ s.clock ∧ ∀ r ∈ s.relayed, r.readAt ≤ readAt
  timedOut : s.phase = .returned .idleTimeout → s.idleDeadline ≤ s.clock

/-- Phases that do the same with a direction. -/
def RelayPhase.Alike (d : Direction) (p q : RelayPhase) : Prop :=
  p.failed = q.failed ∧ p.inFlight d = q.inFlight d ∧ p.uncounted d = q.uncounted d ∧
    p.isClosing d = q.isClosing d

variable {d : Direction} {p q : RelayPhase} {f : Flow} {bytes : List UInt8}

theorem Flow.Ok.alike (h : f.Ok bytes d p) (hpq : p.Alike d q) : f.Ok bytes d q := by
  obtain ⟨hfailed, hflight, hcount, hclosing⟩ := hpq
  obtain ⟨hread, hwritten, hwhole, hshut, hended⟩ := h
  exact ⟨hread, hwritten, by rwa [← hfailed, ← hflight, ← hcount], by rwa [← hclosing],
    by rwa [← hclosing]⟩

theorem Flow.Ok.fail (h : f.Ok bytes d p) (hclosing : p.isClosing d = false) (e : String) :
    f.Ok bytes d (.returned (.error e)) := by
  obtain ⟨hread, hwritten, -, hshut, hended⟩ := h
  rw [hclosing] at hshut hended
  exact ⟨hread, hwritten, nofun, hshut, hended⟩

theorem flow_update (h : ∀ d, (s.flow d).Ok (stream d) d p) (hd : f.Ok (stream d) d q)
    (hother : ∀ d', d ≠ d' → p.Alike d' q) :
    ∀ d', (Function.update s.flow d f d').Ok (stream d') d' q := by
  intro d'
  by_cases hne : d' = d
  · subst hne
    rwa [Function.update_self]
  · rw [Function.update_of_ne hne]
    exact (h d').alike (hother d' (Ne.symm hne))

namespace RelayState

theorem inv_new (idle now : Nat) (stream : Direction → List UInt8) :
    (new idle now stream).Inv idle stream where
  flow _ := ⟨rfl, prefix_rfl, fun _ => ⟨rfl, rfl⟩, rfl, nofun⟩
  finished _ _ h := nomatch h
  past _ h := absurd h not_mem_nil
  writing _ _ _ _ h := nomatch h
  timedOut h := nomatch h

section

variable (h : s.Inv idle stream)

include h

theorem Inv.tick {now : Nat} (hnow : s.clock ≤ now) : Inv idle stream { s with clock := now } where
  flow := h.flow
  finished := h.finished
  past r hr := ⟨(h.past r hr).1.trans hnow, (h.past r hr).2⟩
  writing d chunk rest readAt hphase :=
    ⟨(h.writing d chunk rest readAt hphase).1.trans hnow, (h.writing d chunk rest readAt hphase).2⟩
  timedOut hphase := (h.timedOut hphase).trans hnow

theorem Inv.check (htop : s.phase = .top) : s.check.Inv idle stream := by
  have hflow : ∀ q : RelayPhase, (∀ d, RelayPhase.top.Alike d q) →
      ∀ d, (s.flow d).Ok (stream d) d q := fun q hq d => (htop ▸ h.flow d).alike (hq d)
  unfold RelayState.check
  dsimp only
  split
  · next hdone =>
    rw [Bool.and_eq_true] at hdone
    refine ⟨hflow _ fun _ => ⟨rfl, rfl, rfl, rfl⟩, fun a b hab => ?_, h.past, nofun, nofun⟩
    cases hab
    exact ⟨fun d => by cases d; exacts [hdone.1, hdone.2], rfl, rfl⟩
  split
  · next hlate => exact ⟨hflow _ fun _ => ⟨rfl, rfl, rfl, rfl⟩, nofun, h.past, nofun, fun _ => hlate⟩
  · exact ⟨hflow _ fun _ => ⟨rfl, rfl, rfl, rfl⟩, nofun, h.past, nofun, nofun⟩

theorem Inv.write {chunk rest : List UInt8} {readAt n : Nat}
    (hphase : s.phase = .writing d chunk rest readAt) (hn : 0 < n) (hle : n ≤ rest.length) :
    (s.write idle d chunk rest readAt n).Inv idle stream := by
  have hflow := h.flow
  rw [hphase] at hflow
  obtain ⟨hread, -, hwhole, hshut, hended⟩ := hflow d
  obtain ⟨hwritten, hcount⟩ := hwhole rfl
  rw [inFlight, if_pos rfl] at hwritten
  rw [uncounted, if_pos rfl] at hcount
  have hsplit : (s.flow d).written ++ rest.take n ++ rest.drop n = (s.flow d).read := by
    rw [append_assoc, take_append_drop, hwritten]
  -- a direction that is done has nothing in flight
  have hopen : ¬ ((s.flow d).done || RelayPhase.isClosing d (.writing d chunk rest readAt)) = true := by
    intro hdone
    rw [(hended hdone).2] at hwritten
    have := congrArg List.length hwritten
    rw [length_append] at this
    omega
  have hother : ∀ d', d ≠ d' → ∀ q, RelayPhase.Alike d' .top q →
      RelayPhase.Alike d' (.writing d chunk rest readAt) q := by
    intro d' hne q hq
    rw [RelayPhase.Alike, inFlight, uncounted, if_neg hne, if_neg hne]
    exact hq
  unfold RelayState.write
  split
  · next hlast =>
    rw [hlast, append_nil] at hsplit
    have hall := (append_nil _).trans hsplit
    refine ⟨flow_update hflow ⟨hread, ⟨[], hall⟩, fun _ => ⟨hall, hcount⟩, hshut, (absurd · hopen)⟩
      fun d' hne => hother d' hne _ ⟨rfl, rfl, rfl, rfl⟩, nofun, fun r hr => ?_, nofun, nofun⟩
    · obtain ⟨hat, hpast⟩ := h.writing _ _ _ _ hphase
      rcases mem_cons.mp hr with rfl | hr
      · exact ⟨hat, le_rfl⟩
      · exact ⟨(h.past r hr).1, Nat.add_le_add_right (hpast r hr) idle⟩
  · refine ⟨flow_update hflow ⟨hread, ⟨_, hsplit⟩, fun _ => ⟨?_, ?_⟩, hshut, (absurd · hopen)⟩
      fun d' hne => hother d' hne _ ?_, nofun, h.past, ?_, nofun⟩
    · rw [inFlight, if_pos rfl]
      exact hsplit
    · rw [uncounted, if_pos rfl]
      exact hcount
    · simp [RelayPhase.Alike, hne]
    · rintro _ _ _ _ ⟨⟩
      exact h.writing _ _ _ _ hphase

theorem Inv.act {a : RelayAct} (hact : s.act idle a = some s') : s'.Inv idle stream := by
  have hflow := h.flow
  cases a with
  | check =>
    obtain ⟨htop, hcheck⟩ := ite_none_right_eq_some.mp hact
    cases hcheck
    exact h.check htop
  | sleepElapsed =>
    obtain ⟨⟨hselect, hlate⟩, hs⟩ := ite_none_right_eq_some.mp hact
    cases hs
    rw [hselect] at hflow
    exact ⟨fun d => (hflow d).alike ⟨rfl, rfl, rfl, rfl⟩, nofun, h.past, nofun, fun _ => hlate⟩
  | readFailed d e =>
    obtain ⟨⟨hselect, -⟩, hs⟩ := ite_none_right_eq_some.mp hact
    cases hs
    rw [hselect] at hflow
    exact ⟨fun d => (hflow d).fail rfl e, nofun, h.past, nofun, nofun⟩
  | read d n =>
    obtain ⟨⟨hselect, hdone, hn, -, hle⟩, hs⟩ := ite_none_right_eq_some.mp hact
    cases hs
    rw [hselect] at hflow
    refine ⟨flow_update hflow ?_ fun d' hne => ?_, nofun, h.past, ?_, nofun⟩
    · obtain ⟨hread, hwritten, hwhole, hshut, hended⟩ := hflow d
      obtain ⟨hflight, hcount⟩ := hwhole rfl
      have hall := (append_nil _).symm.trans hflight
      refine ⟨?_, hwritten.trans (prefix_append _ _), fun _ => ⟨?_, ?_⟩, hshut, ?_⟩
      · rw [append_assoc, take_append_drop]
        exact hread
      · rw [inFlight, if_pos rfl, hall]
      · rw [uncounted, if_pos rfl, length_append, ← hcount]
        rfl
      · intro hended'
        simp [hdone] at hended'
    · simp [RelayPhase.Alike, hne]
    · rintro _ _ _ _ ⟨⟩
      exact ⟨le_rfl, fun r hr => (h.past r hr).1⟩
  | endOfStream d =>
    obtain ⟨⟨hselect, hdone, hempty⟩, hs⟩ := ite_none_right_eq_some.mp hact
    cases hs
    rw [hselect] at hflow
    refine ⟨flow_update hflow ?_ fun d' hne => ?_, nofun, h.past, nofun, nofun⟩
    · obtain ⟨hread, hwritten, hwhole, hshut, -⟩ := hflow d
      have hall := (append_nil _).symm.trans (hwhole rfl).1
      refine ⟨hread, hwritten, fun _ => hwhole rfl, ?_, fun _ => ⟨hempty, hall⟩⟩
      simpa [hdone] using hshut
    · simp [RelayPhase.Alike, hne]
  | write n =>
    cases hphase : s.phase with
    | writing d chunk rest readAt =>
      rw [RelayState.act, hphase] at hact
      obtain ⟨⟨hn, hle⟩, hs⟩ := ite_none_right_eq_some.mp hact
      cases hs
      exact h.write hphase hn hle
    | top | select | closing d | returned outcome => simp [RelayState.act, hphase] at hact
  | writeFailed e =>
    cases hphase : s.phase with
    | writing d chunk rest readAt =>
      rw [RelayState.act, hphase] at hact
      cases hact
      rw [hphase] at hflow
      exact ⟨fun d => (hflow d).fail rfl e, nofun, h.past, nofun, nofun⟩
    | top | select | closing d | returned outcome => simp [RelayState.act, hphase] at hact
  | shutDown =>
    cases hphase : s.phase with
    | closing d =>
      rw [RelayState.act, hphase] at hact
      cases hact
      rw [hphase] at hflow
      refine ⟨flow_update hflow ?_ fun d' hne => ?_, nofun, h.past, nofun, nofun⟩
      · obtain ⟨hread, hwritten, hwhole, hshut, hended⟩ := hflow d
        have hclosing : ((s.flow d).done || RelayPhase.isClosing d (.closing d)) = true := by
          simp
        rw [if_pos hclosing] at hshut
        exact ⟨hread, hwritten, fun _ => hwhole rfl, hshut, fun _ => hended hclosing⟩
      · simp [RelayPhase.Alike, hne]
    | top | select | writing d chunk rest readAt | returned outcome =>
      simp [RelayState.act, hphase] at hact

theorem Inv.step {e : Nat × RelayAct} (hstep : s.step idle e = some s') : s'.Inv idle stream := by
  obtain ⟨hnow, hact⟩ := ite_none_right_eq_some.mp hstep
  exact (h.tick hnow).act hact

end

theorem inv_run {now : Nat} {es : List (Nat × RelayAct)}
    (hrun : Run.exec (step idle) (new idle now stream) es = some s) : s.Inv idle stream :=
  Run.exec_invariant (fun _ _ _ h hstep => h.step hstep) hrun (inv_new idle now stream)

/-- In every run, of each direction: what was written is a part of what was read, and this of the
stream; the writer is shut down at most once, when the stream has ended and all of it is written; and if
the relay is done, all of both streams is delivered and counted. -/
theorem relay_lossless (idle now : Nat) (stream : Direction → List UInt8)
    (es : List (Nat × RelayAct)) (s : RelayState)
    (hrun : Run.exec (step idle) (new idle now stream) es = some s) :
    (∀ d, (s.flow d).written <+: (s.flow d).read ∧ (s.flow d).read <+: stream d ∧
      (s.flow d).shutdowns ≤ 1 ∧
      ((s.flow d).shutdowns = 1 → (s.flow d).unread = [] ∧ (s.flow d).written = stream d)) ∧
    ∀ a b, s.phase = .returned (.done a b) → (∀ d, (s.flow d).written = stream d) ∧
      a = (stream .clientToUpstream).length ∧ b = (stream .upstreamToClient).length := by
  have hinv := inv_run hrun
  have hended : ∀ d, ((s.flow d).done || s.phase.isClosing d) = true →
      (s.flow d).unread = [] ∧ (s.flow d).written = stream d := by
    intro d hd
    obtain ⟨hread, -, -, -, hended⟩ := hinv.flow d
    obtain ⟨hunread, hwritten⟩ := hended hd
    rw [hunread, append_nil] at hread
    exact ⟨hunread, hwritten.trans hread⟩
  constructor
  · intro d
    obtain ⟨hread, hwritten, -, hshut, -⟩ := hinv.flow d
    refine ⟨hwritten, ⟨_, hread⟩, ?_, fun hone => hended d ?_⟩
    · rw [hshut]
      split <;> decide
    · by_contra hopen
      rw [hshut, if_neg hopen] at hone
      exact absurd hone (by decide)
  · intro a b hdone
    obtain ⟨hall, rfl, rfl⟩ := hinv.finished a b hdone
    have hwritten : ∀ d, (s.flow d).written = stream d :=
      fun d => (hended d (by rw [hall d, Bool.true_or])).2
    have hcount : ∀ d, (s.flow d).count = (stream d).length := by
      intro d
      obtain ⟨-, -, hwhole, -⟩ := hinv.flow d
      rw [hdone] at hwhole
      obtain ⟨hflight, hcounted⟩ := hwhole rfl
      have hall := (append_nil _).symm.trans hflight
      rw [hwritten d] at hall
      rw [hall]
      exact hcounted
    exact ⟨hwritten, hcount _, hcount _⟩

namespace Sample

def twoBytes : Direction → List UInt8
  | .clientToUpstream => [1, 2]
  | .upstreamToClient => []

def halfClosed : List (Nat × RelayAct) :=
  [(0, .check), (1, .read .clientToUpstream 2), (2, .write 1), (3, .write 1), (3, .check),
    (4, .endOfStream .clientToUpstream), (5, .shutDown), (5, .check),
    (6, .endOfStream .upstreamToClient), (7, .shutDown), (7, .check)]

/-- The relay reads a byte, writes it after some time, and is idle until the deadline has passed. -/
def timedOut (writtenAt lateAt : Nat) : List (Nat × RelayAct) :=
  [(0, .check), (1, .read .clientToUpstream 1), (writtenAt, .write 1), (lateAt, .check)]

end Sample

theorem relay_lossless_half_closed :
    ∃ s, Run.exec (step 10) (new 10 0 Sample.twoBytes) Sample.halfClosed = some s ∧
      s.phase = .returned (.done 2 0) ∧ ∀ d, (s.flow d).written = Sample.twoBytes d :=
  ⟨_, rfl, rfl, ((relay_lossless 10 0 Sample.twoBytes Sample.halfClosed _ rfl).2 2 0 rfl).1⟩

/-- When the relay times out, no chunk has been written within the idle window before, but for as long
as its write took. -/
theorem idle_timeout_after_reads (idle now lag : Nat) (stream : Direction → List UInt8)
    (es : List (Nat × RelayAct)) (s : RelayState)
    (hrun : Run.exec (step idle) (new idle now stream) es = some s)
    (hlag : ∀ r ∈ s.relayed, r.writtenAt ≤ r.readAt + lag)
    (htimeout : s.phase = .returned .idleTimeout) :
    ∀ r ∈ s.relayed, r.writtenAt + idle ≤ s.clock + lag := by
  have hinv := inv_run hrun
  intro r hr
  have hdeadline := hinv.timedOut htimeout
  have hread := (hinv.past r hr).2
  have hwrite := hlag r hr
  omega

theorem idle_timeout_after_prompt_write :
    ∃ s, Run.exec (step 10) (new 10 0 Sample.twoBytes) (Sample.timedOut 1 20) = some s ∧
      s.relayed = [⟨1, 1⟩] ∧ ∀ r ∈ s.relayed, r.writtenAt + 10 ≤ s.clock + 0 :=
  ⟨_, rfl, rfl, idle_timeout_after_reads 10 0 0 Sample.twoBytes (Sample.timedOut 1 20) _ rfl (by decide)
    rfl⟩

/-- A write that takes longer than the idle window is followed by a timeout at once. -/
theorem idle_timeout_after_slow_write :
    ∃ s, Run.exec (step 10) (new 10 0 Sample.twoBytes) (Sample.timedOut 50 50) = some s ∧
      s.phase = .returned .idleTimeout ∧ s.clock = 50 ∧ s.relayed = [⟨1, 50⟩] ∧
      ¬ ∀ r ∈ s.relayed, r.writtenAt + 10 ≤ s.clock :=
  ⟨_, rfl, rfl, rfl, rfl, by decide⟩

end RelayState

end AiProxy.Tunnel
