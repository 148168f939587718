import AiProxy.Ws.Lane
import AiProxy.Ws.Proofs.FrameProofs

/-!
# Proofs: one direction of the relay

The frames a lane has read so far and the frames still in its buffer and its stream make up the
frames of the whole stream (`LaneInv`), however the stream is cut into reads.
-/

namespace AiProxy.Ws

open Option List

variable {fs : List WsFrame} {l l' : Lane} {ev : LaneEvent} {stream : List UInt8}
  {evs : List LaneEvent}

theorem assembleWsMessages_append (sessionId : String) (direction : WsDirection)
    (fs gs : List WsFrame) (a : WsMessageAssembler) :
    assembleWsMessages sessionId direction (fs ++ gs) a =
      ((assembleWsMessages sessionId direction fs a).1 ++
        (assembleWsMessages sessionId direction gs (assembleWsMessages sessionId direction fs a).2).1,
       (assembleWsMessages sessionId direction gs
        (assembleWsMessages sessionId direction fs a).2).2) := by
  induction fs generalizing a with
  | nil => rfl
  | cons f fs ih => simp only [cons_append, assembleWsMessages, ih]

theorem throughClose_append (h : ∀ f ∈ fs, f.opcode ≠ .close)
    (gs : List WsFrame) : throughClose (fs ++ gs) = fs ++ throughClose gs := by
  induction fs with
  | nil => rfl
  | cons f fs ih =>
    have hf : f.opcode ≠ .close := h f mem_cons_self
    rw [cons_append, throughClose, if_neg hf, ih fun g hg => h g (mem_cons_of_mem f hg),
      cons_append]

namespace Lane

theorem step_cases (h : l.step ev = some l') : (∃ n, ev = .read n ∧
      l' = { l with readBuf := l.readBuf ++ l.incoming.take n, incoming := l.incoming.drop n }) ∨
    (∃ wrote f used, ev = .frame wrote ∧ l.stopped = false ∧ l.done = false ∧
      tryParseWsFrame l.readBuf = .ok (some (f, used)) ∧ l' = l.onFrame f used wrote) ∨
    (∃ failure e, ev = .failed failure ∧ l.done = false ∧
      readWsFrameError l.readBuf l.incoming failure = some e ∧ l' = { l with done := true }) ∨
    (ev = .stop ∧ l' = { l with stopped := true }) := by
  cases ev with
  | read n =>
    simp only [step, ite_none_right_eq_some, Option.some.injEq] at h
    exact .inl ⟨n, rfl, h.2.symm⟩
  | frame wrote =>
    simp only [step, ite_none_right_eq_some] at h
    obtain ⟨⟨hs, hd⟩, h⟩ := h
    split at h
    · rename_i f used hp
      exact .inr (.inl ⟨wrote, f, used, rfl, hs, hd, hp, (Option.some.inj h).symm⟩)
    · cases h
  | failed failure =>
    simp only [step, ite_none_right_eq_some, map_eq_some_iff] at h
    obtain ⟨⟨-, hd⟩, e, he, rfl⟩ := h
    exact .inr (.inr (.inl ⟨failure, e, rfl, hd, he, rfl⟩))
  | stop =>
    simp only [step, Option.some.injEq] at h
    exact .inr (.inr (.inr ⟨rfl, h.symm⟩))

end Lane

def Lane.rest (l : Lane) : List WsFrame × Incremental.End ProxyError :=
  streamFrames (l.readBuf ++ l.incoming)

/-- The lane has taken the frames `fs` from the stream. It has captured their messages and forwarded
them all, but for the last one perhaps once it is done or stopped. -/
structure LaneInv (stream : List UInt8) (l : Lane) (fs : List WsFrame) : Prop where
  frames : streamFrames stream = (fs ++ l.rest.1, l.rest.2)
  captured : assembleWsMessages l.sessionId l.direction fs .new = (l.captured, l.assembler)
  noClose : l.done = false → ∀ f ∈ fs, f.opcode ≠ .close
  forwarded : l.forwarded = fs ∨
    (l.done = true ∨ l.stopped = true) ∧ ∃ f, fs = l.forwarded ++ [f]

/-- Nothing has interrupted the lane: what it has read is forwarded, and if it has stopped reading
then the stream has no further frame to deliver. -/
structure LaneComplete (stream : List UInt8) (l : Lane) (fs : List WsFrame) : Prop where
  forwarded : l.forwarded = fs
  done : l.done = true → throughClose (streamFrames stream).1 = fs

theorem LaneInv.handled_of_stream (hi : LaneInv stream l fs) : fs <+: (streamFrames stream).1 := by
  rw [hi.frames]
  exact prefix_append fs _

theorem LaneInv.captured_eq (hi : LaneInv stream l fs) :
    l.captured = (assembleWsMessages l.sessionId l.direction fs .new).1 := by
  rw [hi.captured]

theorem laneInv_start (sessionId : String) (direction : WsDirection) (stream : List UInt8) :
    LaneInv stream (.start sessionId direction stream) [] :=
  ⟨rfl, rfl, fun _ _ h => absurd h not_mem_nil, .inl rfl⟩

theorem laneComplete_start (sessionId : String) (direction : WsDirection) (stream : List UInt8) :
    LaneComplete stream (.start sessionId direction stream) [] := ⟨rfl, fun h => nomatch h⟩

theorem Lane.rest_of_frame {f : WsFrame} {used : Nat} (wrote : Bool)
    (hp : tryParseWsFrame l.readBuf = .ok (some (f, used))) :
    l.rest = (f :: (l.onFrame f used wrote).rest.1, (l.onFrame f used wrote).rest.2) :=
  Incremental.items_value tryParseWsFrame_stable l.incoming hp

theorem Lane.rest_of_read (l : Lane) (n : Nat) :
    Lane.rest { l with readBuf := l.readBuf ++ l.incoming.take n, incoming := l.incoming.drop n } =
      l.rest := by
  simp only [rest, append_assoc, take_append_drop]

theorem Lane.rest_of_failed {failure : ReadFailure} {e : ProxyError}
    (h : readWsFrameError l.readBuf l.incoming failure = some e)
    (hq : failure.interrupts = false) : l.rest.1 = [] := by
  cases failure with
  | protocol =>
    cases hp : tryParseWsFrame l.readBuf with
    | error e' => rw [rest, streamFrames, Incremental.items_error tryParseWsFrame_stable _ hp]
    | ok r => cases r <;> simp [readWsFrameError, hp] at h
  | eof =>
    cases hp : tryParseWsFrame l.readBuf with
    | error e' => simp [readWsFrameError, hp] at h
    | ok r =>
      cases r with
      | some v => simp [readWsFrameError, hp] at h
      | none =>
        simp only [readWsFrameError, hp, ite_none_right_eq_some] at h
        rw [rest, h.1, append_nil, streamFrames, Incremental.items_none hp]
  | timeout | io kind message => cases hq

theorem LaneInv.onFrame {f : WsFrame} {used : Nat} (hi : LaneInv stream l fs) (wrote : Bool)
    (hs : l.stopped = false) (hd : l.done = false)
    (hp : tryParseWsFrame l.readBuf = .ok (some (f, used))) :
    LaneInv stream (l.onFrame f used wrote) (fs ++ [f]) := by
  have hf : l.forwarded = fs := by
    rcases hi.forwarded with h | ⟨h | h, -⟩
    · exact h
    · rw [hd] at h; cases h
    · rw [hs] at h; cases h
  refine ⟨?_, ?_, ?_, ?_⟩
  · rw [hi.frames, Lane.rest_of_frame wrote hp, append_assoc, singleton_append]
  · show assembleWsMessages l.sessionId l.direction (fs ++ [f]) .new = _
    rw [assembleWsMessages_append, hi.captured]
    rfl
  · intro hd'
    have hfc : f.opcode ≠ .close := of_decide_eq_false hd'
    exact forall_mem_append.mpr ⟨hi.noClose hd, forall_mem_singleton.mpr hfc⟩
  · cases wrote with
    | true => exact .inl (congrArg (· ++ [f]) hf)
    | false =>
      refine .inr ⟨?_, f, congrArg (· ++ [f]) hf.symm⟩
      by_cases hc : f.opcode = .close
      · exact .inl (decide_eq_true hc)
      · exact .inr (by simp [Lane.onFrame, hc])

theorem LaneInv.step (hi : LaneInv stream l fs) (h : l.step ev = some l') :
    ∃ fs', LaneInv stream l' fs' ∧ (ev ≠ .frame false → l.forwarded = fs → l'.forwarded = fs') ∧
      (ev.interrupts = false → LaneComplete stream l fs → LaneComplete stream l' fs') := by
  rcases Lane.step_cases h with ⟨n, rfl, rfl⟩ | ⟨wrote, f, used, rfl, hs, hd, hp, rfl⟩ |
    ⟨failure, e, rfl, hd, he, rfl⟩ | ⟨rfl, rfl⟩
  · refine ⟨fs, ⟨?_, hi.captured, hi.noClose, hi.forwarded⟩, fun _ => id,
      fun _ hc => ⟨hc.forwarded, hc.done⟩⟩
    rw [Lane.rest_of_read]
    exact hi.frames
  · have hwritten : LaneEvent.frame wrote ≠ .frame false → l.forwarded = fs →
        (l.onFrame f used wrote).forwarded = fs ++ [f] := by
      intro hne hf
      obtain rfl : wrote = true := by simpa using hne
      exact congrArg (· ++ [f]) hf
    refine ⟨fs ++ [f], hi.onFrame wrote hs hd hp, hwritten, fun hq hc => ?_⟩
    refine ⟨hwritten (fun hfalse => by rw [hfalse] at hq; cases hq) hc.forwarded, fun hd' => ?_⟩
    have hfc : f.opcode = .close := of_decide_eq_true hd'
    rw [hi.frames, Lane.rest_of_frame wrote hp, throughClose_append (hi.noClose hd), throughClose,
      if_pos hfc]
  · refine ⟨fs, ⟨hi.frames, hi.captured, fun h => (nomatch h),
      hi.forwarded.imp_right fun h => ⟨.inl rfl, h.2⟩⟩, fun _ => id,
      fun hq hc => ⟨hc.forwarded, fun _ => ?_⟩⟩
    rw [hi.frames, throughClose_append (hi.noClose hd), Lane.rest_of_failed he hq, throughClose,
      append_nil]
  · exact ⟨fs, ⟨hi.frames, hi.captured, hi.noClose,
      hi.forwarded.imp_right fun h => ⟨.inr rfl, h.2⟩⟩, fun _ => id,
      fun _ hc => ⟨hc.forwarded, hc.done⟩⟩

section

variable (h : Run.exec Lane.step l evs = some l')

include h

theorem lane_run_sessionId : l'.sessionId = l.sessionId := by
  refine Run.exec_invariant (P := fun m => m.sessionId = l.sessionId) ?_ h rfl
  intro m ev m' hm hs
  rcases Lane.step_cases hs with ⟨n, -, rfl⟩ | ⟨wrote, f, used, -, -, -, -, rfl⟩ |
    ⟨failure, e, -, -, -, rfl⟩ | ⟨-, rfl⟩ <;> exact hm

theorem lane_run_done (hd : l.done = true) : l'.done = true := by
  refine Run.exec_invariant (P := fun m => m.done = true) ?_ h hd
  intro m ev m' hm hs
  rcases Lane.step_cases hs with ⟨n, -, rfl⟩ | ⟨wrote, f, used, -, -, hopen, -, rfl⟩ |
    ⟨failure, e, -, -, -, rfl⟩ | ⟨-, rfl⟩
  · exact hm
  · rw [hopen] at hm
    cases hm
  · rfl
  · exact hm

end

/-- In every run of a lane, what is captured are the messages of a beginning of the stream's frames,
and what is forwarded are these frames, up to one whose write failed. -/
theorem lane_run (h : Run.exec Lane.step l evs = some l') (hi : LaneInv stream l fs) :
    ∃ fs', LaneInv stream l' fs' ∧
      (.frame false ∉ evs → l.forwarded = fs → l'.forwarded = fs') ∧
      ((∀ ev ∈ evs, ev.interrupts = false) → LaneComplete stream l fs →
        LaneComplete stream l' fs') := by
  induction evs generalizing l fs with
  | nil =>
    cases h
    exact ⟨fs, hi, fun _ => id, fun _ => id⟩
  | cons ev evs ih =>
    obtain ⟨m, hm, hr⟩ := Run.exec_cons_some.mp h
    obtain ⟨fs₁, hi₁, hf₁, hc₁⟩ := hi.step hm
    obtain ⟨fs₂, hi₂, hf₂, hc₂⟩ := ih hr hi₁
    refine ⟨fs₂, hi₂, fun hnot hf => ?_, fun hq hc => ?_⟩
    · rw [mem_cons, not_or] at hnot
      exact hf₂ hnot.2 (hf₁ (Ne.symm hnot.1) hf)
    · obtain ⟨hev, hrest⟩ := forall_mem_cons.mp hq
      exact hc₂ hrest (hc₁ hev hc)

end AiProxy.Ws
