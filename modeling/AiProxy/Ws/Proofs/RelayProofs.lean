import AiProxy.Ws.Proofs.LaneProofs

/-!
# Proofs: the relay runs its two lanes independently

Every event of the relay is, for each direction, an event of that direction's lane, the end of the
relay, or nothing at all (`lane_step`).
-/

namespace AiProxy.Ws

open Option List

@[simp] theorem Peer.other_ne (p : Peer) : p.other ≠ p := by cases p <;> simp [Peer.other]

@[simp] theorem Peer.ne_other (p : Peer) : p ≠ p.other := fun h => p.other_ne h.symm

@[simp] theorem Peer.other_other (p : Peer) : p.other.other = p := by cases p <;> rfl

theorem Peer.eq_other_of_ne {p q : Peer} (h : q ≠ p) : q = p.other := by
  cases p <;> cases q <;> simp_all [Peer.other]

@[simp] theorem Peer.direction_other_ne (p : Peer) : p.other.direction ≠ p.direction := by
  cases p <;> simp [Peer.other, Peer.direction]

/-- The relay event is the event of the lane of `p`. -/
def RelayEvent.Causes (p : Peer) : RelayEvent → LaneEvent → Prop
  | .frame q wrote, .frame wrote' => q = p ∧ wrote = wrote'
  | .failed q failure _, .failed failure' => q = p ∧ failure = failure'
  | _, _ => False

theorem RelayEvent.Causes.interrupts_eq {p : Peer} {ev : RelayEvent} {e : LaneEvent}
    (h : ev.Causes p e) : ev.interrupts p = e.interrupts := by
  cases ev <;> cases e <;> simp_all [Causes, RelayEvent.interrupts, LaneEvent.interrupts]

theorem RelayEvent.Causes.eq_frame {p : Peer} {ev : RelayEvent} {wrote : Bool}
    (h : ev.Causes p (.frame wrote)) : ev = .frame p wrote := by
  cases ev <;> simp_all [Causes]

namespace Relay

variable (s : Relay) (p q : Peer) (e : Endpoint)
variable {wrote : Bool} {ev : RelayEvent} {cause : LaneEvent → Prop}

@[simp] theorem peer_setPeer : (s.setPeer p e).peer p = e := by cases p <;> rfl

@[simp] theorem peer_setPeer_other : (s.setPeer p.other e).peer p = s.peer p := by cases p <;> rfl

@[simp] theorem peer_other_setPeer : (s.setPeer p e).peer p.other = s.peer p.other := by
  cases p <;> rfl

@[simp] theorem ended_setPeer : (s.setPeer p e).ended = s.ended := by cases p <;> rfl

@[simp] theorem captured_setPeer : (s.setPeer p e).captured = s.captured := by cases p <;> rfl

@[simp] theorem sessionId_setPeer : (s.setPeer p e).sessionId = s.sessionId := by cases p <;> rfl

@[simp] theorem ended_markDone : (s.markDone p).ended = s.ended := by cases p <;> rfl

@[simp] theorem captured_markDone : (s.markDone p).captured = s.captured := by cases p <;> rfl

@[simp] theorem sessionId_markDone : (s.markDone p).sessionId = s.sessionId := by cases p <;> rfl

@[simp] theorem peer_markDone : (s.markDone p).peer p = { s.peer p with done := true } := by
  cases p <;> rfl

@[simp] theorem peer_other_markDone : (s.markDone p).peer p.other = s.peer p.other := by
  cases p <;> rfl

@[simp] theorem peer_markDone_other : (s.markDone p.other).peer p = s.peer p := by cases p <;> rfl

@[simp] theorem peer_stop (cause : EndCause) : (s.stop cause).peer p = s.peer p := by
  cases p <;> rfl

section

variable (o : Origin) (d : WsDirection) (m : WsMessageData)

@[simp] theorem peer_capture : (s.capture o d m).peer p = s.peer p := by cases p <;> rfl

@[simp] theorem captured_capture : (s.capture o d m).captured = s.captured ++ [(o, d, m)] := rfl

@[simp] theorem ended_capture : (s.capture o d m).ended = s.ended := rfl

@[simp] theorem sessionId_capture : (s.capture o d m).sessionId = s.sessionId := rfl

end

@[simp] theorem ended_stop (cause : EndCause) : (s.stop cause).ended = some cause := rfl

@[simp] theorem captured_stop (cause : EndCause) : (s.stop cause).captured = s.captured := rfl

@[simp] theorem sessionId_stop (cause : EndCause) : (s.stop cause).sessionId = s.sessionId := rfl

section

variable (o : Origin) (f : WsFrame) (wrote : Bool)

@[simp] theorem peer_write : (s.write p o f wrote).peer p =
      { s.peer p with written := (s.peer p).written ++ (if wrote then [(o, f)] else []) } := by
  cases wrote <;> simp [write]

@[simp] theorem peer_other_write :
    (s.write p o f wrote).peer p.other = s.peer p.other := by cases wrote <;> simp [write]

@[simp] theorem peer_write_other :
    (s.write p.other o f wrote).peer p = s.peer p := by cases wrote <;> simp [write]

@[simp] theorem ended_write :
    (s.write p o f wrote).ended = s.ended := by cases wrote <;> simp [write]

@[simp] theorem captured_write :
    (s.write p o f wrote).captured = s.captured := by cases wrote <;> simp [write]

@[simp] theorem sessionId_write :
    (s.write p o f wrote).sessionId = s.sessionId := by cases wrote <;> simp [write]

end

variable {s p} {s' : Relay}

theorem step_frame (h : s.step (.frame p wrote) = some s') :
    s.ended = none ∧ (s.peer p).done = false ∧ ∃ f used,
      tryParseWsFrame (s.peer p).readBuf = .ok (some (f, used)) ∧
      s' = (s.onFrame p f used wrote).loopTop := by
  simp only [step, ite_none_right_eq_some] at h
  obtain ⟨⟨he, hd⟩, h⟩ := h
  split at h
  · rename_i f used hp
    exact ⟨he, hd, f, used, hp, (Option.some.inj h).symm⟩
  · cases h

theorem step_failed {failure : ReadFailure} (h : s.step (.failed p failure wrote) = some s') :
    s.ended = none ∧ (s.peer p).done = false ∧ ∃ error,
      readWsFrameError (s.peer p).readBuf (s.peer p).incoming failure = some error ∧
      s' = (s.onReadError p error wrote).loopTop := by
  simp only [step, ite_none_right_eq_some, map_eq_some_iff] at h
  obtain ⟨⟨he, hd⟩, error, hr, rfl⟩ := h
  exact ⟨he, hd, error, hr, rfl⟩

theorem step_inject {req : WsInjectRequest} (h : s.step (.inject req wrote) = some s') :
    s.ended = none ∧ s.injectClosed = false ∧ s' = (s.onInject req wrote).loopTop := by
  simp only [step, ite_none_right_eq_some, Option.some.injEq] at h
  exact ⟨h.1.1, h.1.2, h.2.symm⟩

theorem step_read {n : Nat} (h : s.step (.read p n) = some s') :
    s.ended = none ∧ (s.peer p).done = false ∧ tryParseWsFrame (s.peer p).readBuf = .ok none ∧
      n ≤ (s.peer p).incoming.length ∧
      s' = s.setPeer p
        { s.peer p with
          readBuf := (s.peer p).readBuf ++ (s.peer p).incoming.take n
          incoming := (s.peer p).incoming.drop n } := by
  simp only [step, ite_none_right_eq_some, Option.some.injEq] at h
  obtain ⟨⟨he, hd, hp, -, -, hn⟩, rfl⟩ := h
  exact ⟨he, hd, hp, hn, rfl⟩

theorem step_injectClosed (h : s.step .injectClosed = some s') :
    s.ended = none ∧ s' = { s with injectClosed := true } := by
  simp only [step, ite_none_right_eq_some, Option.some.injEq] at h
  exact ⟨h.1.1, h.2.symm⟩

theorem step_grace (h : s.step .grace = some s') : s.ended = none ∧ s' = s.stop .graceExpired := by
  simp only [step, ite_none_right_eq_some, Option.some.injEq] at h
  exact ⟨h.1.1, h.2.symm⟩

theorem running_of_step (h : s.step ev = some s') : s.ended = none := by
  cases ev <;> simp only [step, ite_none_right_eq_some] at h <;> exact h.1.1

theorem loopTop_eq (s : Relay) : s.loopTop = s ∨
    s.loopTop = s.stop .bothDone ∧ s.client.done = true ∧ s.upstream.done = true := by
  unfold loopTop
  split_ifs with h
  · exact .inr ⟨rfl, h.2⟩
  · exact .inl rfl

@[simp] theorem peer_loopTop : s.loopTop.peer p = s.peer p := by
  rcases loopTop_eq s with h | ⟨h, -⟩ <;> simp [h]

/-! ### The lanes -/

@[simp] theorem core_lane_stop (cause : EndCause) : ((s.stop cause).lane p).core = (s.lane p).core := by
  cases p <;> rfl

@[simp] theorem core_lane_loopTop : (s.loopTop.lane p).core = (s.lane p).core := by
  rcases loopTop_eq s with h | ⟨h, -⟩ <;> simp [h]

theorem lane_onFrame {f : WsFrame} {used : Nat} (he : s.ended = none)
    (hd : (s.peer p).done = false) :
    (s.onFrame p f used wrote).lane p = (s.lane p).onFrame f used wrote := by
  by_cases hc : f.opcode = .close <;> cases wrote <;>
    simp [onFrame, lane, Lane.onFrame, relayedTo, relayedCaptures, hc, he, hd]

theorem core_lane_onFrame_other (f : WsFrame) (used : Nat) (wrote : Bool) :
    ((s.onFrame p.other f used wrote).lane p).core = (s.lane p).core := by
  by_cases hc : f.opcode = .close <;> cases wrote <;>
    simp [onFrame, lane, Lane.core, relayedTo, relayedCaptures, hc]

theorem lane_onReadError (error : ProxyError) (wrote : Bool) :
    (s.onReadError p error wrote).lane p = { s.lane p with done := true } := by
  cases hv : isWsProtocolError error <;>
    simp [onReadError, lane, relayedTo, relayedCaptures, hv]

theorem core_lane_onReadError_other (error : ProxyError) (wrote : Bool) :
    ((s.onReadError p.other error wrote).lane p).core = (s.lane p).core := by
  cases hv : isWsProtocolError error <;> cases wrote <;>
    simp [onReadError, lane, Lane.core, relayedTo, relayedCaptures, hv]

theorem core_lane_onInject (req : WsInjectRequest) (wrote : Bool) :
    ((s.onInject req wrote).lane p).core = (s.lane p).core := by
  unfold onInject
  cases wrote with
  | false => simp
  | true =>
    by_cases ht : req.direction.target = p
    · simp [ht, lane, Lane.core, relayedTo, relayedCaptures]
    · rw [Peer.eq_other_of_ne ht]
      simp [lane, Lane.core, relayedTo, relayedCaptures]

/-- The lane `l'` is reached from `l`, and everything that interrupts it on the way is a cause. -/
def Advances (cause : LaneEvent → Prop) (l l' : Lane) : Prop :=
  ∃ evs, Run.exec Lane.step l evs = some l' ∧ ∀ ev ∈ evs, ev.interrupts = true → cause ev

theorem Advances.of_step {l l' : Lane} {e : LaneEvent} (h : l.step e = some l')
    (hc : e.interrupts = true → cause e) : Advances cause l l' :=
  ⟨[e], Run.exec_cons_some.mpr ⟨l', h, rfl⟩, forall_mem_singleton.mpr hc⟩

theorem Advances.trans {l m r : Lane} (h : Advances cause l m)
    (h' : Advances cause m r) : Advances cause l r := by
  obtain ⟨evs, he, hc⟩ := h
  obtain ⟨evs', he', hc'⟩ := h'
  exact ⟨evs ++ evs', Run.exec_append.mpr ⟨m, he, he'⟩, forall_mem_append.mpr ⟨hc, hc'⟩⟩

theorem Advances.mono {cause' : LaneEvent → Prop} {l l' : Lane} (h : Advances cause l l')
    (hc : ∀ e, cause e → cause' e) : Advances cause' l l' := by
  obtain ⟨evs, he, hcause⟩ := h
  exact ⟨evs, he, fun ev hev hi => hc ev (hcause ev hev hi)⟩

theorem Advances.of_core {l l' : Lane} (h : l'.core = l.core)
    (hs : l.stopped = true → l'.stopped = true) : Advances cause l l' := by
  obtain ⟨i, d, inc, buf, done, stopped, a, fw, c⟩ := l
  obtain ⟨i', d', inc', buf', done', stopped', a', fw', c'⟩ := l'
  obtain ⟨rfl, rfl, rfl, rfl, rfl, rfl, rfl, rfl⟩ := h
  cases stopped' with
  | true => exact .of_step (e := .stop) rfl nofun
  | false =>
    cases stopped with
    | true => cases hs rfl
    | false => exact ⟨[], rfl, forall_mem_nil _⟩

theorem Advances.of_core_of_running {s s' : Relay} {p : Peer} (he : s.ended = none)
    (h : (s'.lane p).core = (s.lane p).core) : Advances cause (s.lane p) (s'.lane p) :=
  .of_core h fun hs => by simp [lane, he] at hs

theorem Advances.loopTop {s : Relay} {p : Peer} : Advances cause (s.lane p) (s.loopTop.lane p) := by
  refine .of_core core_lane_loopTop fun hs => ?_
  rcases loopTop_eq s with h | ⟨h, -⟩
  · rw [h]
    exact hs
  · rw [h]
    rfl

theorem lane_step (h : s.step ev = some s') :
    Advances (ev.Causes p) (s.lane p) (s'.lane p) := by
  cases ev with
  | read q n =>
    obtain ⟨he, hd, hparse, hn, rfl⟩ := step_read h
    by_cases hq : q = p
    · subst hq
      refine .of_step (e := .read n) ?_ nofun
      simp [Lane.step, lane, relayedTo, relayedCaptures, he, hd, hparse, hn]
    · rw [Peer.eq_other_of_ne hq]
      exact .of_core_of_running he (by simp [lane, Lane.core, relayedTo, relayedCaptures])
  | frame q wrote =>
    obtain ⟨he, hd, f, used, hparse, rfl⟩ := step_frame h
    by_cases hq : q = p
    · subst hq
      refine Advances.trans (.of_step (e := .frame wrote) ?_ fun _ => ⟨rfl, rfl⟩) .loopTop
      rw [lane_onFrame he hd]
      simp [Lane.step, lane, he, hd, hparse]
    · rw [Peer.eq_other_of_ne hq]
      exact (Advances.of_core_of_running he (core_lane_onFrame_other f used wrote)).trans .loopTop
  | failed q failure wrote =>
    obtain ⟨he, hd, error, herr, rfl⟩ := step_failed h
    by_cases hq : q = p
    · subst hq
      refine Advances.trans (.of_step (e := .failed failure) ?_ fun _ => ⟨rfl, rfl⟩) .loopTop
      rw [lane_onReadError]
      simp [Lane.step, lane, he, hd, herr]
    · rw [Peer.eq_other_of_ne hq]
      exact (Advances.of_core_of_running he (core_lane_onReadError_other error wrote)).trans .loopTop
  | inject req wrote =>
    obtain ⟨he, -, rfl⟩ := step_inject h
    exact (Advances.of_core_of_running he (core_lane_onInject req wrote)).trans .loopTop
  | injectClosed =>
    obtain ⟨he, rfl⟩ := step_injectClosed h
    refine .of_core_of_running he ?_
    cases p <;> rfl
  | grace =>
    obtain ⟨he, rfl⟩ := step_grace h
    exact .of_core_of_running he (core_lane_stop _)

theorem lane_run_of_run {evs : List RelayEvent} (h : Run.exec step s evs = some s') :
    Advances (fun e => ∃ ev ∈ evs, ev.Causes p e) (s.lane p) (s'.lane p) := by
  induction evs generalizing s with
  | nil =>
    cases h
    exact ⟨[], rfl, forall_mem_nil _⟩
  | cons ev evs ih =>
    obtain ⟨t, ht, hr⟩ := Run.exec_cons_some.mp h
    refine Advances.trans ((lane_step (p := p) ht).mono fun e hc => ⟨ev, mem_cons_self, hc⟩) ?_
    exact (ih hr).mono fun e ⟨ev', hev, hc⟩ => ⟨ev', mem_cons_of_mem ev hev, hc⟩

def BothDone (s : Relay) : Prop := s.ended = some .bothDone → ∀ p, (s.peer p).done = true

theorem bothDone_loopTop (h : s.ended ≠ some .bothDone) : s.loopTop.BothDone := by
  rcases loopTop_eq s with hl | ⟨hl, hc, hu⟩
  · rw [hl]
    exact fun he => absurd he h
  · intro _ p
    rw [peer_loopTop]
    cases p with
    | client => exact hc
    | upstream => exact hu

theorem bothDone_step (h : s.step ev = some s') : s'.BothDone := by
  cases ev with
  | read q n =>
    obtain ⟨he, -, -, -, rfl⟩ := step_read h
    exact fun hb => by simp [he] at hb
  | frame q wrote =>
    obtain ⟨he, -, f, used, -, rfl⟩ := step_frame h
    refine bothDone_loopTop ?_
    by_cases hc : f.opcode = .close <;> cases wrote <;> simp [onFrame, hc, he]
  | failed q failure wrote =>
    obtain ⟨he, -, error, -, rfl⟩ := step_failed h
    refine bothDone_loopTop ?_
    cases hv : isWsProtocolError error <;> simp [onReadError, hv, he]
  | inject req wrote =>
    obtain ⟨he, -, rfl⟩ := step_inject h
    refine bothDone_loopTop ?_
    cases wrote <;> simp [onInject, he]
  | injectClosed =>
    obtain ⟨he, rfl⟩ := step_injectClosed h
    exact fun hb => by simp [he] at hb
  | grace =>
    obtain ⟨-, rfl⟩ := step_grace h
    exact fun hb => by simp at hb

theorem lane_start (sessionId : String) (fromClient fromUpstream : List UInt8) :
    (start sessionId fromClient fromUpstream).lane p =
      .start sessionId p.direction (p.select fromClient fromUpstream) := by
  cases p <;> rfl

end Relay

/-- Fidelity of the relay, in both directions. What has been written to the other peer of `p` on
behalf of `p` are the first frames of `p`'s whole byte stream, in order; what has been captured are
the messages of these frames, in order, each once, with at most one further frame whose write
failed. When the relay has ended because both sides are done, no read of `p` timed out or failed
with an I/O error and no write of a frame of `p` failed, everything up to the first Close, the
first protocol error or the end of the stream has been written. -/
theorem relay_fidelity {sessionId : String} {fromClient fromUpstream : List UInt8}
    {evs : List RelayEvent} {s : Relay}
    (h : relayWebsocketFrames sessionId fromClient fromUpstream evs = some s) (p : Peer) :
    let frames := (streamFrames (p.select fromClient fromUpstream)).1
    ∃ handled, handled <+: frames ∧
      (s.relayedTo p.other = handled ∨
        .frame p false ∈ evs ∧ ∃ f, handled = s.relayedTo p.other ++ [f]) ∧
      s.relayedCaptures p.direction =
        (assembleWsMessages sessionId p.direction handled .new).1 ∧
      (s.ended = some .bothDone → (∀ ev ∈ evs, ev.interrupts p = false) →
        s.relayedTo p.other = throughClose frames ∧ handled = throughClose frames) := by
  intro frames
  obtain ⟨les, hrun, hcause⟩ := Relay.lane_run_of_run (p := p) h
  rw [Relay.lane_start] at hrun
  have hid : s.sessionId = sessionId := lane_run_sessionId hrun
  have hstart := laneInv_start sessionId p.direction (p.select fromClient fromUpstream)
  have hdone : s.ended = some .bothDone → (s.peer p).done = true := fun he =>
    Run.exec_invariant (P := Relay.BothDone) (fun _ _ _ _ hs => Relay.bothDone_step hs) h
      (fun he => nomatch he) he p
  obtain ⟨fs, hi, hforwarded, hcomplete⟩ := lane_run hrun hstart
  refine ⟨fs, hi.handled_of_stream, ?_, ?_, fun he hq => ?_⟩
  · by_cases hwrite : .frame p false ∈ evs
    · exact hi.forwarded.imp_right fun hlast => ⟨hwrite, hlast.2⟩
    · refine .inl (hforwarded (fun hfailed => hwrite ?_) rfl)
      obtain ⟨ev, hev, hc⟩ := hcause _ hfailed rfl
      exact hc.eq_frame ▸ hev
  · rw [← hid]
    exact hi.captured_eq
  · have hquiet : ∀ e ∈ les, e.interrupts = false := by
      intro e hmem
      by_contra hinterrupts
      obtain ⟨ev, hev, hc⟩ := hcause e hmem (Bool.not_eq_false _ ▸ hinterrupts)
      exact hinterrupts (hc.interrupts_eq ▸ hq ev hev)
    have hc := hcomplete hquiet (laneComplete_start sessionId p.direction _)
    have hall := hc.done (hdone he)
    exact ⟨hc.forwarded.trans hall.symm, hall.symm⟩

/-- A Text frame and a Close from the client, a Close from the upstream, the client's bytes in two
reads with the upstream's frame between them. -/
theorem relay_fidelity_text_close :
    ∃ s, relayWebsocketFrames "s" [0x81, 0x01, 0x61, 0x88, 0x00] [0x88, 0x00]
        [.read .client 2, .read .upstream 2, .frame .upstream true, .read .client 3,
          .frame .client true, .frame .client true] = some s ∧
      s.relayedTo .upstream =
        throughClose (streamFrames [0x81, 0x01, 0x61, 0x88, 0x00]).1 := by
  refine ⟨_, rfl, ?_⟩
  obtain ⟨_, -, -, -, hall⟩ := @relay_fidelity "s" [0x81, 0x01, 0x61, 0x88, 0x00] [0x88, 0x00]
    [.read .client 2, .read .upstream 2, .frame .upstream true, .read .client 3,
      .frame .client true, .frame .client true] _ rfl .client
  exact (hall rfl (by decide)).1

/-- Two runs that end with both sides done and yet leave a frame of the client undelivered: a read
times out in the middle of a frame, and the write of a Close fails. -/
theorem relay_ends_in_order_without_frame :
    (∃ s, relayWebsocketFrames "s" [0x81, 0x00] []
        [.read .client 1, .failed .client .timeout true, .failed .upstream .eof true] = some s ∧
      s.ended = some .bothDone ∧
      ¬ throughClose (streamFrames [0x81, 0x00]).1 <+: s.relayedTo .upstream) ∧
    ∃ s, relayWebsocketFrames "s" [0x88, 0x00] []
        [.read .client 2, .frame .client false, .failed .upstream .eof true] = some s ∧
      s.ended = some .bothDone ∧
      ¬ throughClose (streamFrames [0x88, 0x00]).1 <+: s.relayedTo .upstream :=
  ⟨⟨_, rfl, rfl, by decide⟩, ⟨_, rfl, rfl, by decide⟩⟩

end AiProxy.Ws
