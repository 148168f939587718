import AiProxy.Upstream.Proofs.CapProofs
import AiProxy.Upstream.Registration

/-!
# The registration of dials: proofs

A key has a registration exactly while a call with an armed guard for it is in its dial or leaving it
(`Registry.Owned`).
-/

namespace AiProxy.Upstream

open Function Population

namespace Registry

variable {s s' : Registry} {i : ReqId} {c c' : Call} {k : UpstreamKey} {e : RegistryEvent}

theorem step_cases (h : s.step e = some s') :
    (∃ key, e = .getOrConnect key ∧ s' = { s with calls := s.calls ++ [⟨key, .looping, false⟩] }) ∨
      ∃ i c, s.calls[i]? = some c ∧ s.stepCall i c e = some s' ∧
        ∀ j, e = .dropGuard j → j = i := by
  cases e with
  | getOrConnect key =>
    cases h
    exact .inl ⟨key, rfl, rfl⟩
  | dropGuard i =>
    obtain ⟨c, hc, h⟩ := Option.bind_eq_some_iff.mp h
    exact .inr ⟨i, c, hc, h, fun j hj => (RegistryEvent.dropGuard.inj hj).symm⟩
  | scan i | changed i | connected i | cancel i | dropSenders i =>
    obtain ⟨c, hc, h⟩ := Option.bind_eq_some_iff.mp h
    exact .inr ⟨i, c, hc, h, nofun⟩

/-- What the step of a call does to the registrations: nothing, a registration of its own under a free
key, the removal of its own when its guard is dropped, or the removal of one whose senders are gone. -/
inductive Transition (s : Registry) (i : ReqId) (c : Call) : RegistryEvent → Registry → Prop
  | stay {e : RegistryEvent} : Transition s i c e s
  | move {e : RegistryEvent} {c' : Call} (hk : c'.key = c.key)
      (hs : c'.stage.isRegistered = c.stage.isRegistered) : Transition s i c e (s.move i c')
  | register {e : RegistryEvent} (hp : s.pending c.key = none) (hs : c.stage = .looping) :
      Transition s i c e ({ s with pending := Function.update s.pending c.key (some i) }.move i
        { c with stage := .dialing true, sent := false })
  | dropGuard (hs : c.stage = .leaving true) :
      Transition s i c (.dropGuard i)
        ((s.move i { c with stage := .unguarded }).removePendingEntryIfCurrent c.key i)
  | cleanUp {e : RegistryEvent} {channel : ReqId} {d : Call} (hs : c.stage = .waiting channel)
    (hd : s.calls[channel]? = some d)
      (hgone : d.stage = .exited) :
      Transition s i c e
        ((s.removePendingEntryIfCurrent c.key channel).move i { c with stage := .looping })

theorem transition_of_scan {outcome : ScanOutcome} (hs : c.stage = .looping)
    (h : s.scan i c outcome = some s') : Transition s i c e s' := by
  cases outcome with
  | acquired | grow =>
    cases h
    exact .move rfl (by rw [hs]; rfl)
  | again =>
    cases h
    exact .stay
  | absent =>
    rw [scan] at h
    split at h
    · cases h
      exact .move rfl (by rw [hs]; rfl)
    · next hp =>
      cases h
      exact .register hp hs

theorem transition_of_stepCall (hj : ∀ j, e = .dropGuard j → j = i)
    (h : s.stepCall i c e = some s') : Transition s i c e s' := by
  cases e with
  | getOrConnect => cases h
  | scan j outcome =>
    rw [stepCall] at h
    split at h
    · next hs => exact transition_of_scan hs h
    · cases h
  | changed j =>
    rw [stepCall] at h
    split at h
    · next channel hs =>
      obtain ⟨d, hd, h⟩ := Option.bind_eq_some_iff.mp h
      rw [changed] at h
      split at h
      · cases h
        exact .move rfl (by rw [hs]; rfl)
      · split at h
        · next hgone =>
          cases h
          exact .cleanUp hs hd hgone
        · cases h
    · cases h
  | connected j | dropSenders j =>
    rw [stepCall] at h
    split at h
    · next hs =>
      cases h
      exact .move rfl (by rw [hs]; rfl)
    · cases h
  | cancel j =>
    rw [stepCall] at h
    split at h
    all_goals cases h
    all_goals
      next hs => exact .move rfl (by rw [hs]; rfl)
  | dropGuard j =>
    obtain rfl := hj j rfl
    rw [stepCall] at h
    split at h
    · next hs =>
      cases h
      exact .dropGuard hs
    · next hs =>
      cases h
      exact .move rfl (by rw [hs]; rfl)
    · cases h

/-! ## Registrations and their owners -/

/-- What is registered for a key is the call that holds an armed guard for it. -/
structure Owned (s : Registry) : Prop where
  registered : ∀ (i : ReqId) (c : Call), s.calls[i]? = some c → c.stage.isRegistered = true →
    s.pending c.key = some i
  owner : ∀ (k : UpstreamKey) (i : ReqId), s.pending k = some i →
    ∃ c, s.calls[i]? = some c ∧ c.key = k ∧ c.stage.isRegistered = true

theorem Owned.new : Owned new := ⟨fun _ _ h => (nomatch h), fun _ _ h => (nomatch h)⟩

theorem move_calls_ne {j : ReqId} {d : Call} (hj : j ≠ i) (hd : s.calls[j]? = some d) :
    (s.move i c').calls[j]? = some d := by
  show (s.calls.set i c')[j]? = some d
  rw [List.getElem?_set_ne hj.symm]
  exact hd

section

variable (h : Owned s)

include h

theorem Owned.move (hc : s.calls[i]? = some c) (hk : c'.key = c.key)
    (hs : c'.stage.isRegistered = c.stage.isRegistered) : Owned (s.move i c') where
  registered j d hd hreg := by
    rcases getElem?_set_cases hd with ⟨rfl, rfl⟩ | ⟨-, hd⟩
    · show s.pending d.key = some j
      rw [hk]
      exact h.registered j c hc (hs ▸ hreg)
    · exact h.registered j d hd hreg
  owner k j hp := by
    obtain ⟨d, hd, hkey, hreg⟩ := h.owner k j hp
    by_cases hj : j = i
    · subst hj
      rw [hc] at hd
      cases hd
      exact ⟨c', getElem?_set_self hc, hk.trans hkey, hs.trans hreg⟩
    · exact ⟨d, move_calls_ne hj hd, hkey, hreg⟩

theorem Owned.register (hc : s.calls[i]? = some c) (hp : s.pending c.key = none)
    (hs : c.stage = .looping) (hk : c'.key = c.key) (hs' : c'.stage.isRegistered = true) :
    Owned ({ s with pending := update s.pending c.key (some i) }.move i c') where
  registered j d hd hreg := by
    show update s.pending c.key (some i) d.key = some j
    rcases getElem?_set_cases hd with ⟨rfl, rfl⟩ | ⟨-, hd⟩
    · rw [hk, update_self]
    · have hown := h.registered j d hd hreg
      have hne : d.key ≠ c.key := by
        intro heq
        rw [heq, hp] at hown
        cases hown
      rw [update_of_ne hne]
      exact hown
  owner k j hpending := by
    have hpending : update s.pending c.key (some i) k = some j := hpending
    by_cases hkey : k = c.key
    · subst hkey
      rw [update_self] at hpending
      cases hpending
      exact ⟨c', getElem?_set_self hc, hk, hs'⟩
    · rw [update_of_ne hkey] at hpending
      obtain ⟨d, hd, hdk, hreg⟩ := h.owner k j hpending
      have hj : j ≠ i := by
        rintro rfl
        rw [hc] at hd
        cases hd
        rw [hs] at hreg
        cases hreg
      exact ⟨d, move_calls_ne hj hd, hdk, hreg⟩

theorem Owned.dropGuard (hc : s.calls[i]? = some c)
    (hreg : c.stage.isRegistered = true) (hs' : c'.stage.isRegistered = false) :
    Owned ((s.move i c').removePendingEntryIfCurrent c.key i) := by
  have hcur : (s.move i c').pending c.key = some i := h.registered i c hc hreg
  rw [removePendingEntryIfCurrent, if_pos hcur]
  refine ⟨fun j d hd hdreg => ?_, fun k j hpending => ?_⟩
  · show update s.pending c.key none d.key = some j
    rcases getElem?_set_cases hd with ⟨rfl, rfl⟩ | ⟨hji, hd⟩
    · rw [hs'] at hdreg
      cases hdreg
    · have hown := h.registered j d hd hdreg
      have hne : d.key ≠ c.key := by
        intro heq
        rw [heq] at hown
        exact hji (Option.some.inj (hown.symm.trans hcur))
      rw [update_of_ne hne]
      exact hown
  · have hpending : update s.pending c.key none k = some j := hpending
    by_cases hkey : k = c.key
    · subst hkey
      rw [update_self] at hpending
      cases hpending
    · rw [update_of_ne hkey] at hpending
      obtain ⟨d, hd, hdk, hdreg⟩ := h.owner k j hpending
      have hj : j ≠ i := by
        rintro rfl
        rw [hc] at hd
        cases hd
        exact hkey hdk.symm
      exact ⟨d, move_calls_ne hj hd, hdk, hdreg⟩

theorem Owned.removePendingEntryIfCurrent_eq {channel : ReqId} {d : Call}
    (hd : s.calls[channel]? = some d) (hgone : d.stage = .exited) (k : UpstreamKey) :
    s.removePendingEntryIfCurrent k channel = s := by
  rw [removePendingEntryIfCurrent, if_neg]
  intro hp
  obtain ⟨d', hd', -, hreg⟩ := h.owner k channel hp
  rw [hd] at hd'
  cases hd'
  rw [hgone] at hreg
  cases hreg

theorem Owned.transition (hc : s.calls[i]? = some c) (ht : Transition s i c e s') : Owned s' := by
  cases ht with
  | stay => exact h
  | move hk hs => exact h.move hc hk hs
  | register hp hs => exact h.register hc hp hs rfl rfl
  | dropGuard hs => exact h.dropGuard hc (by rw [hs]; rfl) rfl
  | cleanUp hs hd hgone =>
    rw [h.removePendingEntryIfCurrent_eq hd hgone]
    exact h.move hc rfl (by rw [hs]; rfl)

theorem Owned.arrive (key : UpstreamKey) :
    Owned { s with calls := s.calls ++ [⟨key, .looping, false⟩] } where
  registered j d hd hreg := by
    rcases getElem?_append_cases hd with ⟨-, rfl⟩ | hd
    · cases hreg
    · exact h.registered j d hd hreg
  owner k j hp := by
    obtain ⟨d, hd, hrest⟩ := h.owner k j hp
    refine ⟨d, ?_, hrest⟩
    show (s.calls ++ _)[j]? = some d
    rw [List.getElem?_append_left (lt_length_of_getElem? hd)]
    exact hd

theorem Owned.step (hs : s.step e = some s') : Owned s' := by
  rcases step_cases hs with ⟨key, rfl, rfl⟩ | ⟨i, c, hc, hcall, hj⟩
  · exact h.arrive key
  · exact h.transition hc (transition_of_stepCall hj hcall)

end

theorem owned_of_run {es : List RegistryEvent} (h : Run.exec step new es = some s) : Owned s :=
  Run.exec_invariant (fun _ _ _ hI ht => Owned.step hI ht) h Owned.new

theorem Owned.pending_step (h : Owned s) (hs : s.step e = some s') (hp : s.pending k = some i) :
    s'.pending k = some i ∨ e = .dropGuard i ∧ s'.pending k = none := by
  rcases step_cases hs with ⟨key, rfl, rfl⟩ | ⟨j, c, hc, hcall, hj⟩
  · exact .inl hp
  · cases transition_of_stepCall hj hcall with
    | stay | move => exact .inl hp
    | register hnone =>
      refine .inl ?_
      show update s.pending c.key (some j) k = some i
      have hne : k ≠ c.key := by
        rintro rfl
        rw [hnone] at hp
        cases hp
      rw [update_of_ne hne]
      exact hp
    | dropGuard hleaving =>
      have hcur : (s.move j { c with stage := .unguarded }).pending c.key = some j :=
        h.registered j c hc (by rw [hleaving]; rfl)
      rw [removePendingEntryIfCurrent, if_pos hcur]
      by_cases hkey : k = c.key
      · subst hkey
        obtain rfl : i = j := Option.some.inj (hp.symm.trans hcur)
        exact .inr ⟨rfl, update_self _ _ _⟩
      · refine .inl ?_
        show update s.pending c.key none k = some i
        rw [update_of_ne hkey]
        exact hp
    | cleanUp hs hd hgone =>
      rw [h.removePendingEntryIfCurrent_eq hd hgone]
      exact .inl hp

/-- In every state that calls of `get_or_connect` reach, whatever their interleaving: no two calls have a
registered dial for one key, the registrations are exactly those of calls in or leaving their dial, so
that a call that has exited has none, and a registration is removed by the drop of its own guard and by
nothing else. -/
theorem registration_owned (es : List RegistryEvent) (s : Registry)
    (h : Run.exec step new es = some s) :
    (∀ (i j : ReqId) (c d : Call), s.calls[i]? = some c → s.calls[j]? = some d → c.key = d.key →
      c.stage.isRegistered = true → d.stage.isRegistered = true → i = j) ∧
    (∀ k i, s.pending k = some i ↔
      ∃ c, s.calls[i]? = some c ∧ c.key = k ∧ c.stage.isRegistered = true) ∧
    ∀ e s', s.step e = some s' → ∀ k i, s.pending k = some i →
      s'.pending k = some i ∨ e = .dropGuard i ∧ s'.pending k = none := by
  have hown := owned_of_run h
  refine ⟨fun i j c d hc hd hk hci hdj => ?_, fun k i => ⟨hown.owner k i, ?_⟩, fun e s' hs k i hp => ?_⟩
  · have hi := hown.registered i c hc hci
    rw [hk, hown.registered j d hd hdj] at hi
    exact (Option.some.inj hi).symm
  · rintro ⟨c, hc, rfl, hreg⟩
    exact hown.registered i c hc hreg
  · exact hown.pending_step hs hp

/-- The first call is cancelled in its dial and the second one, which waited for it, registers its own. -/
def cancelledDial (key : UpstreamKey) : List RegistryEvent :=
  [.getOrConnect key, .getOrConnect key, .scan 0 .absent, .scan 1 .absent, .cancel 0, .dropGuard 0,
    .dropSenders 0, .changed 1, .scan 1 .absent]

theorem registration_owned_cancelled :
    ∃ s, Run.exec step new (cancelledDial ⟨"https", "upstream", 443⟩) = some s ∧
      s.pending ⟨"https", "upstream", 443⟩ = some 1 ∧
      (∀ k i, s.pending k = some i ↔
        ∃ c, s.calls[i]? = some c ∧ c.key = k ∧ c.stage.isRegistered = true) := by
  have hrun : (Run.exec step new (cancelledDial ⟨"https", "upstream", 443⟩)).any fun s =>
      s.pending ⟨"https", "upstream", 443⟩ == some 1 := by decide
  obtain ⟨s, hs, hp⟩ := Run.exists_of_exec_any hrun
  exact ⟨s, hs, by simpa using hp, (registration_owned _ s hs).2.1⟩

end Registry

end AiProxy.Upstream
