import AiProxy.Ws.CloseOrder
import AiProxy.Ws.Proofs.RelayProofs

/-!
# Proofs: what is written after a Close

Each input of a run causes at most one write (`written_sublist`), and exactly one when no write fails
(`written_eq`).
-/

namespace AiProxy.Ws

open Option List

namespace Relay

variable {s s' : Relay} {p : Peer}
variable {ev : RelayEvent} {evs : List RelayEvent}

theorem inputs_cons (evs : List RelayEvent) (h : s.step ev = some s') :
    s.inputs (ev :: evs) = (s.input ev).toList ++ s'.inputs evs := by
  simp only [inputs, h]

theorem isWsProtocolError_readWsFrameError {readBuf incoming : List UInt8} {failure : ReadFailure}
    {error : ProxyError} (h : readWsFrameError readBuf incoming failure = some error) :
    isWsProtocolError error = decide (failure = .protocol) := by
  cases hp : tryParseWsFrame readBuf with
  | error e =>
    cases failure <;> simp [readWsFrameError, hp] at h
    subst h
    exact isWsProtocolError_of_error hp
  | ok r =>
    cases r with
    | some v => cases failure <;> simp [readWsFrameError, hp] at h
    | none =>
      cases failure with
      | protocol => simp [readWsFrameError, hp] at h
      | eof =>
        simp only [readWsFrameError, hp, ite_none_right_eq_some, Option.some.injEq] at h
        rw [← h.2]
        rfl
      | timeout =>
        simp only [readWsFrameError, hp] at h
        split_ifs at h <;> cases h <;> decide
      | io kind message =>
        simp only [readWsFrameError, hp, Option.some.injEq] at h
        rw [← h]
        rfl

theorem written_onFrame (q : Peer) (f : WsFrame) (used : Nat) (wrote : Bool) :
    ((s.onFrame q f used wrote).peer p).written =
      (s.peer p).written ++ (if q.other = p ∧ wrote then [(.relayed, f)] else []) := by
  by_cases hq : q = p
  · subst hq
    by_cases hc : f.opcode = .close <;> cases wrote <;> simp [onFrame, hc]
  · rw [Peer.eq_other_of_ne hq]
    by_cases hc : f.opcode = .close <;> cases wrote <;> simp [onFrame, hc]

theorem written_onReadError (q : Peer) (error : ProxyError) (wrote : Bool) :
    ((s.onReadError q error wrote).peer p).written = (s.peer p).written ++
      (if q = p ∧ isWsProtocolError error ∧ wrote then [(.proxyClose, closeFrame 1002)] else []) := by
  by_cases hq : q = p
  · subst hq
    cases hv : isWsProtocolError error <;> simp [onReadError, hv]
  · rw [Peer.eq_other_of_ne hq]
    cases hv : isWsProtocolError error <;> simp [onReadError, hv]

theorem written_onInject (req : WsInjectRequest) (wrote : Bool) :
    ((s.onInject req wrote).peer p).written = (s.peer p).written ++
      (if req.direction.target = p ∧ wrote then [(.injected, req.frame)] else []) := by
  by_cases hq : req.direction.target = p
  · cases wrote <;> simp [onInject, hq]
  · cases wrote <;> simp [onInject, Peer.eq_other_of_ne hq]

theorem written_step (h : s.step ev = some s') : (s'.peer p).written = (s.peer p).written ++
      (if ev.writes then (s.input ev).toList.filterMap (Input.writeTo p) else []) := by
  cases ev with
  | read q n =>
    obtain ⟨-, -, -, -, rfl⟩ := step_read h
    by_cases hq : q = p
    · subst hq
      simp [input]
    · rw [Peer.eq_other_of_ne hq]
      simp [input]
  | frame q wrote =>
    obtain ⟨-, -, f, used, hp, rfl⟩ := step_frame h
    rw [peer_loopTop, written_onFrame]
    by_cases hq : q.other = p <;> cases wrote <;>
      simp [input, hp, Input.writeTo, hq, RelayEvent.writes]
  | failed q failure wrote =>
    obtain ⟨-, -, error, herr, rfl⟩ := step_failed h
    rw [peer_loopTop, written_onReadError, isWsProtocolError_readWsFrameError herr]
    by_cases hq : q = p <;> cases wrote <;> cases failure <;>
      simp [input, Input.writeTo, hq, RelayEvent.writes]
  | inject req wrote =>
    obtain ⟨-, -, rfl⟩ := step_inject h
    rw [peer_loopTop, written_onInject]
    by_cases hq : req.direction.target = p <;> cases wrote <;>
      simp [input, Input.writeTo, hq, RelayEvent.writes]
  | injectClosed =>
    obtain ⟨-, rfl⟩ := step_injectClosed h
    cases p <;> simp [input, peer]
  | grace =>
    obtain ⟨-, rfl⟩ := step_grace h
    simp [input]

theorem written_sublist (h : Run.exec step s evs = some s') : List.Sublist (s'.peer p).written
      ((s.peer p).written ++ (s.inputs evs).filterMap (Input.writeTo p)) := by
  induction evs generalizing s with
  | nil =>
    cases h
    simp [inputs]
  | cons ev evs ih =>
    obtain ⟨t, ht, hr⟩ := Run.exec_cons_some.mp h
    refine (ih hr).trans ?_
    rw [inputs_cons evs ht, filterMap_append, ← append_assoc, written_step ht]
    refine List.Sublist.append_right (List.Sublist.append_left ?_ _) _
    split_ifs
    · exact List.Sublist.refl _
    · exact nil_sublist _

theorem written_eq (h : Run.exec step s evs = some s') (hw : ∀ ev ∈ evs, ev.writes = true) :
    (s'.peer p).written = (s.peer p).written ++ (s.inputs evs).filterMap (Input.writeTo p) := by
  induction evs generalizing s with
  | nil =>
    cases h
    simp [inputs]
  | cons ev evs ih =>
    obtain ⟨t, ht, hr⟩ := Run.exec_cons_some.mp h
    rw [ih hr fun e he => hw e (mem_cons_of_mem ev he), inputs_cons evs ht,
      filterMap_append, ← append_assoc, written_step ht, if_pos (hw ev mem_cons_self)]

theorem done_step (h : s.step ev = some s') (hd : (s.peer p).done = true) :
    (s'.peer p).done = true := by
  obtain ⟨les, hrun, -⟩ := lane_step (p := p) h
  exact lane_run_done hrun hd

theorem input_step {i : Input} (h : s.step ev = some s') (hi : i ∈ s.input ev) :
    (i.source = some p → (s.peer p).done = false) ∧ (i.finishes p → (s'.peer p).done = true) := by
  cases ev with
  | read q n | injectClosed | grace => simp [input] at hi
  | frame q wrote =>
    obtain ⟨-, hd, f, used, hp, rfl⟩ := step_frame h
    simp only [input, hp, mem_def, Option.some.injEq] at hi
    subst hi
    refine ⟨fun hq => ?_, fun hq => ?_⟩
    · cases hq
      exact hd
    · obtain ⟨rfl, hc⟩ := hq
      simp [onFrame, hc]
  | failed q failure wrote =>
    obtain ⟨-, hd, error, -, rfl⟩ := step_failed h
    cases failure <;> simp [input] at hi
    subst hi
    refine ⟨fun hq => ?_, fun hq => ?_⟩
    · cases hq
      exact hd
    · cases hq
      simp [onReadError]
  | inject req wrote =>
    simp only [input, mem_def, Option.some.injEq] at hi
    subst hi
    refine ⟨fun hq => ?_, False.elim⟩
    cases hq

theorem inputs_source_of_done (h : Run.exec step s evs = some s')
    (hd : (s.peer p).done = true) : ∀ i ∈ s.inputs evs, i.source ≠ some p := by
  induction evs generalizing s with
  | nil => simp [inputs]
  | cons ev evs ih =>
    obtain ⟨t, ht, hr⟩ := Run.exec_cons_some.mp h
    rw [inputs_cons evs ht]
    intro i hi hsource
    rcases mem_append.mp hi with hi | hi
    · have hopen := (input_step ht (mem_toList.mp hi)).1 hsource
      rw [hd] at hopen
      cases hopen
    · exact ih hr (done_step ht hd) i hi hsource

theorem inputs_pairwise (h : Run.exec step s evs = some s') :
    (s.inputs evs).Pairwise fun i j => ∀ p, i.finishes p → j.source ≠ some p := by
  induction evs generalizing s with
  | nil => simp [inputs]
  | cons ev evs ih =>
    obtain ⟨t, ht, hr⟩ := Run.exec_cons_some.mp h
    rw [inputs_cons evs ht]
    refine pairwise_append.mpr ⟨?_, ih hr, ?_⟩
    · cases s.input ev <;> simp
    · intro i hi j hj p hfin
      have hdone := (input_step (p := p) ht (mem_toList.mp hi)).2 hfin
      exact inputs_source_of_done hr hdone j hj

end Relay

/-- Two inputs in an allowed order, the second not from a peer that the first one finishes: the first
does not close a peer that the second one writes to. -/
theorem Input.MayPrecede.not_close {i j : Input} (h : i.MayPrecede j)
    (hfin : ∀ p, i.finishes p → j.source ≠ some p) {p : Peer} {v w : Origin × WsFrame}
    (hv : i.writeTo p = some v) (hw : j.writeTo p = some w) : ¬ isRelayClose v := by
  rintro ⟨horigin, hclose⟩
  cases i with
  | frame q f =>
    simp only [writeTo, ite_none_right_eq_some, Option.some.injEq] at hv
    obtain ⟨rfl, rfl⟩ := hv
    cases j with
    | frame r g =>
      simp only [writeTo, ite_none_right_eq_some] at hw
      have hr : r = q := by
        rw [← Peer.other_other r, hw.1, Peer.other_other]
      exact hfin q ⟨rfl, hclose⟩ (congrArg some hr)
    | violation r =>
      simp only [writeTo, ite_none_right_eq_some] at hw
      exact q.other_ne (hw.1.symm.trans (h hclose))
    | inject req =>
      simp only [writeTo, ite_none_right_eq_some] at hw
      exact h hclose hw.1
  | violation q =>
    simp only [writeTo, ite_none_right_eq_some, Option.some.injEq] at hv
    obtain ⟨rfl, rfl⟩ := hv
    cases j with
    | frame r g =>
      simp only [writeTo, ite_none_right_eq_some] at hw
      have hr : r = q := h
      rw [hr] at hw
      exact q.other_ne hw.1
    | violation r =>
      simp only [writeTo, ite_none_right_eq_some] at hw
      exact hfin q rfl (congrArg some hw.1)
    | inject req =>
      simp only [writeTo, ite_none_right_eq_some] at hw
      exact h hw.1
  | inject req =>
    simp only [writeTo, ite_none_right_eq_some, Option.some.injEq] at hv
    rw [← hv.2] at horigin
    exact horigin rfl

theorem Input.mayPrecede_of_not_close {i j : Input}
    (h : ∀ p v w, i.writeTo p = some v → j.writeTo p = some w → ¬ isRelayClose v) :
    i.MayPrecede j := by
  cases i with
  | frame q f =>
    cases j with
    | frame r g => trivial
    | violation r =>
      intro hclose
      by_contra hr
      have hr' : r = q.other := Peer.eq_other_of_ne hr
      exact h q.other (.relayed, f) _ (if_pos rfl) (if_pos hr') ⟨by simp, hclose⟩
    | inject req =>
      intro hclose htarget
      exact h q.other (.relayed, f) _ (if_pos rfl) (if_pos htarget) ⟨by simp, hclose⟩
  | violation q =>
    cases j with
    | frame r g =>
      by_contra hr
      have hr' : r.other = q := by rw [Peer.eq_other_of_ne hr, Peer.other_other]
      exact h q (.proxyClose, closeFrame 1002) _ (if_pos rfl) (if_pos hr') ⟨by simp, rfl⟩
    | violation r => trivial
    | inject req =>
      intro htarget
      exact h q (.proxyClose, closeFrame 1002) _ (if_pos rfl) (if_pos htarget) ⟨by simp, rfl⟩
  | inject req => cases j <;> trivial

/-- The close discipline of the relay holds in every run whose inputs come in an allowed order, and
when no write fails it holds in no other run. -/
theorem nothing_after_close {sessionId : String} {fromClient fromUpstream : List UInt8}
    {evs : List RelayEvent} {s : Relay}
    (h : relayWebsocketFrames sessionId fromClient fromUpstream evs = some s) :
    let ordered := ((Relay.start sessionId fromClient fromUpstream).inputs evs).Pairwise
      Input.MayPrecede
    (ordered → ∀ p, NothingAfterClose (s.peer p).written) ∧
      ((∀ ev ∈ evs, ev.writes = true) → (∀ p, NothingAfterClose (s.peer p).written) → ordered) := by
  intro ordered
  have hstart : ∀ p, ((Relay.start sessionId fromClient fromUpstream).peer p).written = [] := by
    intro p
    cases p <;> rfl
  refine ⟨fun hord p => ?_, fun hw hlast => ?_⟩
  · have hsub := Relay.written_sublist (p := p) h
    rw [hstart p] at hsub
    refine List.Pairwise.sublist hsub (pairwise_filterMap.mpr ?_)
    refine (hord.and (Relay.inputs_pairwise h)).imp ?_
    rintro i j ⟨hprec, hfin⟩ v hv w hw
    exact hprec.not_close hfin hv hw
  · have hpeer : ∀ p, ((Relay.start sessionId fromClient fromUpstream).inputs evs).Pairwise
        fun i j => ∀ v, i.writeTo p = some v → ∀ w, j.writeTo p = some w → ¬ isRelayClose v := by
      intro p
      have hp := hlast p
      rw [Relay.written_eq h hw, hstart p, nil_append, NothingAfterClose,
        pairwise_filterMap] at hp
      exact hp
    refine ((hpeer .client).and (hpeer .upstream)).imp ?_
    rintro i j ⟨hc, hu⟩
    refine Input.mayPrecede_of_not_close fun p v w hv hw => ?_
    cases p with
    | client => exact hc v hv w hw
    | upstream => exact hu v hv w hw

/-- An exchange that ends with a Close from each side. -/
theorem nothing_after_close_text_close :
    ∃ s, relayWebsocketFrames "s" [0x81, 0x00, 0x88, 0x00] [0x88, 0x00]
        [.read .client 4, .frame .client true, .frame .client true, .read .upstream 2,
          .frame .upstream true] = some s ∧ ∀ p, NothingAfterClose (s.peer p).written := by
  refine ⟨_, rfl, ?_⟩
  exact (@nothing_after_close "s" [0x81, 0x00, 0x88, 0x00] [0x88, 0x00]
    [.read .client 4, .frame .client true, .frame .client true, .read .upstream 2,
      .frame .upstream true] _ rfl).1 (by decide)

/-- The client sends a frame with a reserved bit set and is sent Close(1002); a Text frame of the
upstream is then written to it. -/
theorem frame_after_close_1002 :
    ∃ s, relayWebsocketFrames "s" [0xC1, 0x00] [0x81, 0x00]
        [.read .client 2, .failed .client .protocol true, .read .upstream 2,
          .frame .upstream true] = some s ∧
      (s.peer .client).written.map (fun w => w.2.opcode) = [.close, .text] ∧
      ¬ NothingAfterClose (s.peer .client).written :=
  ⟨_, rfl, rfl, by decide⟩

end AiProxy.Ws
