import AiProxy.Ws.Fragmentation
import AiProxy.Ws.Proofs.CloseOrderProofs

/-!
# Proofs: injection and fragmentation

On a stream that follows the fragmentation rules the message assembler of a direction is in the state of
the automaton (`assembler_tracks`).
-/

namespace AiProxy.Ws

open Option List
open Run (exec exec_cons_some exec_append)

variable {b : Bool} {f : WsFrame} {ev : RelayEvent} {stream : List UInt8}
variable {s s' : Relay} {p : Peer} {evs : List RelayEvent}

theorem fragmentStep_control (hc : f.opcode.isControl = true) (hfin : f.fin = true)
    (hlen : f.payload.length ≤ 125) : fragmentStep b f = some b := by
  unfold fragmentStep
  cases ho : f.opcode <;> simp [ho, WsOpcode.isControl] at hc <;> simp [hfin, hlen]

theorem fragmentStep_message (hc : f.opcode.isControl = false) (hn : f.opcode ≠ .continuation)
    (hfin : f.fin = true) :
    fragmentStep b f = if b then none else some false := by
  unfold fragmentStep
  cases ho : f.opcode <;> simp [ho, WsOpcode.isControl] at hc hn <;> simp [hfin]

theorem WsMessageAssembler.startOpcode_append (a : WsMessageAssembler) (payload : List UInt8) :
    (a.append payload).startOpcode = a.startOpcode := by
  unfold append
  split_ifs <;> rfl

theorem assembler_step (sessionId : String) (d : WsDirection) {a : WsMessageAssembler}
    (h : fragmentStep a.startOpcode.isSome f = some b) :
    (assembleWsMessage sessionId d f a).2.startOpcode.isSome = b := by
  unfold fragmentStep at h
  unfold assembleWsMessage
  cases ho : f.opcode with
  | close | ping | pong =>
    simp only [ho, ite_none_right_eq_some, Option.some.injEq] at h
    exact h.2
  | text | binary =>
    simp only [ho] at h
    cases hs : a.startOpcode with
    | some o => simp [hs] at h
    | none =>
      cases hf : f.fin with
      | true => simpa [hs, hf] using h
      | false =>
        by_cases hl : f.payload.length ≤ maxReassembledMessageBytes <;>
          simpa [hs, hf, hl] using h
  | continuation =>
    simp only [ho] at h
    cases hs : a.startOpcode with
    | none => simp [hs] at h
    | some o =>
      cases hf : f.fin with
      | true => simpa [hs, hf, WsMessageAssembler.reset] using h
      | false => simpa [hs, hf, WsMessageAssembler.startOpcode_append] using h

theorem assembler_tracks (sessionId : String) (d : WsDirection) {fs : List WsFrame}
    {a : WsMessageAssembler} (h : exec fragmentStep a.startOpcode.isSome fs = some b) :
    (assembleWsMessages sessionId d fs a).2.startOpcode.isSome = b := by
  induction fs generalizing a with
  | nil => exact Option.some.inj h
  | cons f fs ih =>
    obtain ⟨c, hc, hr⟩ := exec_cons_some.mp h
    rw [← assembler_step sessionId d hc] at hr
    exact ih hr

theorem ValidFragments.anti {fs gs : List WsFrame} (h : fs <+: gs) (hv : ValidFragments gs) :
    ValidFragments fs := by
  obtain ⟨t, rfl⟩ := h
  obtain ⟨b, hb⟩ := isSome_iff_exists.mp hv
  obtain ⟨c, hc, -⟩ := exec_append.mp hb
  exact isSome_iff_exists.mpr ⟨c, hc⟩

namespace Relay

theorem framesTo_step (h : s.step ev = some s') : s'.framesTo p = s.framesTo p ++
      (if ev.writes then (s.input ev).toList.filterMap (Input.writeTo p) else []).map Prod.snd := by
  rw [framesTo, written_step h, map_append, framesTo]

theorem framesTo_mono (h : exec step s evs = some s') : s.framesTo p <+: s'.framesTo p := by
  refine Run.exec_invariant (P := fun t => s.framesTo p <+: t.framesTo p) ?_ h
    (prefix_refl _)
  intro t ev t' ht hs
  rw [framesTo_step hs]
  exact ht.trans (prefix_append _ _)

theorem assembler_eq_of_step (h : s.step ev = some s')
    (hev : ∀ wrote, ev ≠ .frame p wrote) : (s'.peer p).assembler = (s.peer p).assembler := by
  cases ev with
  | read q n =>
    obtain ⟨-, -, -, -, rfl⟩ := step_read h
    by_cases hq : q = p
    · subst hq
      simp
    · rw [Peer.eq_other_of_ne hq]
      simp
  | frame q wrote =>
    obtain ⟨-, -, f, used, -, rfl⟩ := step_frame h
    have hq : q ≠ p := fun hq => hev wrote (by rw [hq])
    rw [Peer.eq_other_of_ne hq, peer_loopTop]
    exact congrArg Lane.assembler (core_lane_onFrame_other f used wrote)
  | failed q failure wrote =>
    obtain ⟨-, -, error, -, rfl⟩ := step_failed h
    rw [peer_loopTop]
    by_cases hq : q = p
    · subst hq
      exact congrArg Lane.assembler (lane_onReadError error wrote)
    · rw [Peer.eq_other_of_ne hq]
      exact congrArg Lane.assembler (core_lane_onReadError_other error wrote)
  | inject req wrote =>
    obtain ⟨-, -, rfl⟩ := step_inject h
    rw [peer_loopTop]
    exact congrArg Lane.assembler (core_lane_onInject req wrote)
  | injectClosed =>
    simp only [step, ite_none_right_eq_some, Option.some.injEq] at h
    obtain ⟨-, rfl⟩ := h
    cases p <;> rfl
  | grace =>
    simp only [step, ite_none_right_eq_some, Option.some.injEq] at h
    obtain ⟨-, rfl⟩ := h
    rw [peer_stop]

end Relay

/-- The frames written to the other peer of `p` have taken the automaton to the state of the
assembler of `p`, as long as the relay runs. -/
structure FragmentInv (stream : List UInt8) (p : Peer) (s : Relay) : Prop where
  lane : ∃ fs, LaneInv stream (s.lane p) fs
  out : ∃ b, exec fragmentStep false (s.framesTo p.other) = some b ∧
    (s.ended = none → (s.peer p).assembler.startOpcode.isSome = b)

theorem fragmentInv_start (sessionId : String) (fromClient fromUpstream : List UInt8) (p : Peer) :
    FragmentInv (p.select fromClient fromUpstream) p (.start sessionId fromClient fromUpstream) := by
  refine ⟨⟨[], ?_⟩, false, ?_, fun _ => ?_⟩
  · rw [Relay.lane_start]
    exact laneInv_start sessionId p.direction _
  · cases p <;> rfl
  · cases p <;> rfl

theorem fragmentStep_of_lane {used : Nat}
    (hv : ValidFragments (streamFrames stream).1) (hl : ∃ fs, LaneInv stream (s.lane p) fs)
    (he : s.ended = none) (hd : (s.peer p).done = false)
    (hp : tryParseWsFrame (s.peer p).readBuf = .ok (some (f, used))) :
    ∃ b, fragmentStep (s.peer p).assembler.startOpcode.isSome f = some b := by
  obtain ⟨fs, hi⟩ := hl
  have hstopped : (s.lane p).stopped = false := by simp [Relay.lane, he]
  have hpre := (hi.onFrame true hstopped hd hp).handled_of_stream
  obtain ⟨c, hc⟩ := isSome_iff_exists.mp (hv.anti hpre)
  obtain ⟨b, hb, hf⟩ := exec_append.mp hc
  have htrack := assembler_tracks (a := .new) (s.lane p).sessionId (s.lane p).direction hb
  rw [hi.captured] at htrack
  obtain ⟨b', hb', -⟩ := exec_cons_some.mp hf
  exact ⟨b', by rw [← hb', ← htrack]; rfl⟩

section

variable (hi : FragmentInv stream p s)

include hi

theorem FragmentInv.lane_step (h : s.step ev = some s') : ∃ fs, LaneInv stream (s'.lane p) fs := by
  obtain ⟨les, hrun, -⟩ := Relay.lane_step (p := p) h
  obtain ⟨fs, hl⟩ := hi.lane
  exact (lane_run hrun hl).imp fun _ h => h.1

theorem FragmentInv.of_written {ws : List WsFrame}
    (h : s.step ev = some s') (hev : ∀ wrote, ev ≠ .frame p wrote)
    (hws : s'.framesTo p.other = s.framesTo p.other ++ ws)
    (hkeep : ∀ b, (s.peer p).assembler.startOpcode.isSome = b →
      exec fragmentStep b ws = some b) : FragmentInv stream p s' := by
  obtain ⟨b, hb, htrack⟩ := hi.out
  have hb' := htrack (Relay.running_of_step h)
  refine ⟨hi.lane_step h, b, ?_, fun _ => ?_⟩
  · rw [hws]
    exact exec_append.mpr ⟨b, hb, hkeep b hb'⟩
  · rw [Relay.assembler_eq_of_step h hev]
    exact hb'

theorem FragmentInv.step_frame {wrote : Bool} (hv : ValidFragments (streamFrames stream).1)
    (h : s.step (.frame p wrote) = some s') : FragmentInv stream p s' := by
  refine ⟨hi.lane_step h, ?_⟩
  have hws := Relay.framesTo_step (p := p.other) h
  obtain ⟨he, hd, f, used, hp, rfl⟩ := Relay.step_frame h
  obtain ⟨b, hb, htrack⟩ := hi.out
  obtain ⟨c, hc⟩ := fragmentStep_of_lane hv hi.lane he hd hp
  have hnext : ((s.onFrame p f used wrote).loopTop.peer p).assembler.startOpcode.isSome = c := by
    rw [Relay.peer_loopTop]
    have hlane := congrArg Lane.assembler (@Relay.lane_onFrame s p wrote f used he hd)
    exact (congrArg (fun a => a.startOpcode.isSome) hlane).trans
      (assembler_step s.sessionId p.direction hc)
  rw [htrack he] at hc
  cases wrote with
  | true =>
    refine ⟨c, ?_, fun _ => hnext⟩
    rw [hws]
    simp only [Relay.input, hp, RelayEvent.writes, if_true, toList_some, Input.writeTo,
      filterMap_cons, filterMap_nil, map_cons, map_nil]
    exact exec_append.mpr ⟨b, hb, exec_cons_some.mpr ⟨c, hc, rfl⟩⟩
  | false =>
    refine ⟨b, ?_, fun hrun => ?_⟩
    · rw [hws]
      simpa [RelayEvent.writes] using hb
    · by_cases hclose : f.opcode = .close
      · simp only [fragmentStep, hclose, ite_none_right_eq_some, Option.some.injEq] at hc
        rw [hnext, hc.2]
      · have hstop : (s.onFrame p f used false).ended = some .writeFailed := by
          simp [Relay.onFrame, hclose]
        rcases Relay.loopTop_eq (s.onFrame p f used false) with hl | ⟨hl, -⟩
        · rw [hl, hstop] at hrun
          cases hrun
        · rw [hl] at hrun
          cases hrun

/-- A complete request between two messages, or a control frame anywhere, keeps the rules; a message
injected into another one breaks them. -/
theorem FragmentInv.step_inject {req : WsInjectRequest} {wrote : Bool}
    (hreq : req.direction.target = p.other → req.Complete)
    (h : s.step (.inject req wrote) = some s') :
    (InjectsBetweenMessages p s (.inject req wrote) ∧ FragmentInv stream p s') ∨
      (¬ InjectsBetweenMessages p s (.inject req wrote) ∧ ¬ ValidFragments (s'.framesTo p.other)) := by
  have hws := Relay.framesTo_step (p := p.other) h
  simp only [Relay.input, RelayEvent.writes, toList_some, Input.writeTo,
    filterMap_cons, filterMap_nil] at hws
  cases wrote with
  | false =>
    refine .inl ⟨fun r hr => (by cases hr), hi.of_written h (fun w hw => (by cases hw)) hws ?_⟩
    exact fun b _ => rfl
  | true =>
    by_cases ht : req.direction.target = p.other
    · obtain ⟨hfin, hn, hlen⟩ := hreq ht
      simp only [ht, if_true] at hws
      cases hc : req.opcode.isControl with
      | true =>
        refine .inl ⟨fun r hr _ hr' => ?_, hi.of_written h (fun w hw => (by cases hw)) hws ?_⟩
        · cases hr
          rw [hc] at hr'
          cases hr'
        · intro b _
          exact exec_cons_some.mpr ⟨b, fragmentStep_control hc hfin (hlen hc), rfl⟩
      | false =>
        have hmsg : ∀ b, fragmentStep b req.frame = if b then none else some false :=
          fun b => fragmentStep_message hc hn hfin
        cases hopen : (s.peer p).assembler.startOpcode with
        | none =>
          refine .inl ⟨fun r hr _ _ => hopen, hi.of_written h (fun w hw => (by cases hw)) hws ?_⟩
          intro b hb
          rw [hopen] at hb
          subst hb
          exact exec_cons_some.mpr ⟨false, hmsg false, rfl⟩
        | some o =>
          refine .inr ⟨fun hg => ?_, fun hvalid => ?_⟩
          · have hnone := hg req rfl ht hc
            rw [hopen] at hnone
            cases hnone
          · obtain ⟨b, hb, htrack⟩ := hi.out
            have hbt := htrack (Relay.running_of_step h)
            rw [hopen] at hbt
            obtain ⟨c, hcv⟩ := isSome_iff_exists.mp hvalid
            rw [hws] at hcv
            obtain ⟨b', hb', hlast⟩ := exec_append.mp hcv
            rw [hb] at hb'
            cases hb'
            obtain ⟨d, hd, -⟩ := exec_cons_some.mp hlast
            rw [← hbt, hmsg] at hd
            cases hd
    · simp only [ht, if_false] at hws
      refine .inl ⟨fun r hr ht' => ?_, hi.of_written h (fun w hw => (by cases hw)) hws ?_⟩
      · cases hr
        exact absurd ht' ht
      · exact fun b _ => rfl

theorem FragmentInv.step (hv : ValidFragments (streamFrames stream).1)
    (hreq : ∀ req wrote, ev = .inject req wrote → req.direction.target = p.other → req.Complete)
    (h : s.step ev = some s') :
    (InjectsBetweenMessages p s ev ∧ FragmentInv stream p s') ∨
      (¬ InjectsBetweenMessages p s ev ∧ ¬ ValidFragments (s'.framesTo p.other)) := by
  have hws := Relay.framesTo_step (p := p.other) h
  cases ev with
  | inject req wrote => exact hi.step_inject (hreq req wrote rfl) h
  | frame q wrote =>
    refine .inl ⟨fun r hr => (by cases hr), ?_⟩
    by_cases hq : q = p
    · subst hq
      exact hi.step_frame hv h
    · obtain ⟨-, -, f, used, hp, -⟩ := Relay.step_frame h
      rw [Peer.eq_other_of_ne hq] at h hws hp
      refine hi.of_written h (fun w hw => ?_) hws fun b _ => ?_
      · cases p <;> cases hw
      · simp [Relay.input, hp, Input.writeTo]
  | failed q failure wrote =>
    refine .inl ⟨fun r hr => (by cases hr), ?_⟩
    refine hi.of_written h (fun w hw => (by cases hw)) hws fun b _ => ?_
    have hclose : fragmentStep b (closeFrame 1002) = some b := fragmentStep_control rfl rfl (by decide)
    by_cases hq : q = p.other <;> cases wrote <;> cases failure <;>
      simp [Relay.input, Input.writeTo, RelayEvent.writes, hq, exec, hclose]
  | read q n | injectClosed | grace =>
    exact .inl ⟨fun r hr => (by cases hr), hi.of_written h (fun w hw => (by cases hw)) hws
      fun b _ => rfl⟩

end

theorem FragmentInv.run (hv : ValidFragments (streamFrames stream).1) (hi : FragmentInv stream p s)
    (hreq : ∀ req wrote, .inject req wrote ∈ evs → req.direction.target = p.other → req.Complete)
    (h : exec Relay.step s evs = some s') :
    ValidFragments (s'.framesTo p.other) ↔
      Run.Along Relay.step (InjectsBetweenMessages p) s evs := by
  induction evs generalizing s with
  | nil =>
    cases h
    obtain ⟨b, hb, -⟩ := hi.out
    exact iff_of_true (isSome_iff_exists.mpr ⟨b, hb⟩) trivial
  | cons ev evs ih =>
    obtain ⟨t, ht, hr⟩ := exec_cons_some.mp h
    have hreq' : ∀ req wrote, .inject req wrote ∈ evs → req.direction.target = p.other →
        req.Complete := fun req wrote hm => hreq req wrote (mem_cons_of_mem ev hm)
    rcases hi.step hv (fun req wrote he => hreq req wrote (he ▸ mem_cons_self)) ht with
      ⟨hg, hi'⟩ | ⟨hg, hbad⟩
    · rw [ih hi' hreq' hr]
      constructor
      · intro ha
        refine ⟨hg, fun t' ht' => ?_⟩
        rw [ht] at ht'
        cases ht'
        exact ha
      · intro ha
        exact ha.2 t ht
    · refine iff_of_false (fun hvalid => ?_) fun ha => hg ha.1
      exact hbad (hvalid.anti (Relay.framesTo_mono hr))

/-- Injection and fragmentation, in both directions. When the stream of `p` follows the rules and
every request injected towards the other peer is complete, the frames written to the other peer
follow the rules if and only if every message injected there is taken while the assembler of that
direction is between two messages. -/
theorem injection_valid_iff {sessionId : String} {fromClient fromUpstream : List UInt8}
    {evs : List RelayEvent} {s : Relay}
    (h : relayWebsocketFrames sessionId fromClient fromUpstream evs = some s) (p : Peer)
    (hv : ValidFragments (streamFrames (p.select fromClient fromUpstream)).1)
    (hreq : ∀ req wrote, .inject req wrote ∈ evs → req.direction.target = p.other →
      req.Complete) :
    ValidFragments (s.framesTo p.other) ↔
      Run.Along Relay.step (InjectsBetweenMessages p)
        (.start sessionId fromClient fromUpstream) evs :=
  (fragmentInv_start sessionId fromClient fromUpstream p).run hv hreq h

/-- A Ping injected between the fragments of a message, and a Text frame injected after it. -/
theorem injection_valid_ping_text :
    Run.Along Relay.step (InjectsBetweenMessages .client)
      (.start "s" [0x01, 0x01, 0x61, 0x80, 0x01, 0x62] [])
      [.read .client 6, .frame .client true, .inject ⟨.clientToServer, .ping, "", true⟩ true,
        .frame .client true, .inject ⟨.clientToServer, .text, "x", true⟩ true] := by
  refine Iff.mp (injection_valid_iff rfl .client (by decide) ?_) (by decide)
  intro req wrote hm _
  simp only [mem_cons, not_mem_nil, or_false, reduceCtorEq, false_or,
    RelayEvent.inject.injEq] at hm
  rcases hm with ⟨rfl, -⟩ | ⟨rfl, -⟩
  · exact ⟨rfl, by decide, fun _ => by decide⟩
  · exact ⟨rfl, by decide, fun hc => nomatch hc⟩

/-- The client sends a message in two fragments; a complete Text frame injected towards the upstream
is written between them. -/
theorem injected_text_between_fragments :
    ValidFragments (streamFrames [0x01, 0x01, 0x61, 0x80, 0x01, 0x62]).1 ∧
    WsInjectRequest.Complete ⟨.clientToServer, .text, "x", true⟩ ∧
    ∃ s, relayWebsocketFrames "s" [0x01, 0x01, 0x61, 0x80, 0x01, 0x62] []
        [.read .client 6, .frame .client true, .inject ⟨.clientToServer, .text, "x", true⟩ true,
          .frame .client true] = some s ∧
      (s.framesTo .upstream).map (fun f => (f.opcode, f.fin)) =
        [(.text, false), (.text, true), (.continuation, true)] ∧
      ¬ ValidFragments (s.framesTo .upstream) :=
  ⟨by decide, ⟨rfl, by decide, fun hc => nomatch hc⟩, _, rfl, rfl, by decide⟩

end AiProxy.Ws
