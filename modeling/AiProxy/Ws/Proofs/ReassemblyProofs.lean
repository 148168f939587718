import AiProxy.Ws.Proofs.FragmentationProofs

/-!
# Proofs: reassembled messages

While the frames follow RFC 6455, the assembler holds the opcode of the first fragment of the message in
progress and its payload so far, up to the cap (`Holds`).
-/

namespace AiProxy.Ws

open List
open WsOpcode (isControl)

/-- What the assembler holds of the fragments of the message in progress. -/
structure Holds (fragments : List WsFrame) (a : WsMessageAssembler) : Prop where
  idle : fragments = [] → a = .new
  opcode : ∀ first, fragments.head? = some first → a.startOpcode = some first.opcode
  isPrefix : a.buffer <+: payloadOf fragments
  whole : a.truncated = false → a.buffer = payloadOf fragments ∧
    a.buffer.length ≤ maxReassembledMessageBytes
  flagged : a.truncated = true → maxReassembledMessageBytes < (payloadOf fragments).length

theorem payloadOf_append (fragments : List WsFrame) (frame : WsFrame) :
    payloadOf (fragments ++ [frame]) = payloadOf fragments ++ frame.payload := by
  simp [payloadOf]

theorem holds_new : Holds [] .new where
  idle _ := rfl
  opcode first h := by cases h
  isPrefix := prefix_rfl
  whole _ := ⟨rfl, Nat.zero_le _⟩
  flagged h := by cases h

namespace Holds

variable {fragments : List WsFrame} {a : WsMessageAssembler} {frame : WsFrame}

theorem start (h : Holds [] a) (frame : WsFrame) :
    Holds [frame] (if frame.payload.length ≤ maxReassembledMessageBytes then
      { a with startOpcode := some frame.opcode, buffer := frame.payload }
      else { startOpcode := some frame.opcode, buffer := [], truncated := true }) := by
  have hpayload : payloadOf [frame] = frame.payload := by simp [payloadOf]
  rw [h.idle rfl]
  split
  · next hfits =>
    refine ⟨nofun, fun first hfirst => ?_, ?_, fun _ => ⟨hpayload.symm, hfits⟩, nofun⟩
    · cases hfirst; rfl
    · exact hpayload ▸ prefix_rfl
  · next hlong =>
    refine ⟨nofun, fun first hfirst => ?_, nil_prefix, nofun, fun _ => ?_⟩
    · cases hfirst; rfl
    · rw [hpayload]
      exact Nat.not_le.mp hlong

theorem append (h : Holds fragments a) (hopen : fragments ≠ []) (frame : WsFrame) :
    Holds (fragments ++ [frame]) (a.append frame.payload) := by
  have hopcode : ∀ first, (fragments ++ [frame]).head? = some first →
      (a.append frame.payload).startOpcode = some first.opcode := by
    intro first hfirst
    rw [WsMessageAssembler.startOpcode_append]
    refine h.opcode first ?_
    rwa [head?_append_of_ne_nil _ hopen] at hfirst
  have hbegins : payloadOf fragments <+: payloadOf (fragments ++ [frame]) := by
    rw [payloadOf_append]
    exact prefix_append _ _
  have hlength : (payloadOf (fragments ++ [frame])).length =
      (payloadOf fragments).length + frame.payload.length := by
    rw [payloadOf_append, length_append]
  cases htruncated : a.truncated with
  | true =>
    have happend : a.append frame.payload = a := by rw [WsMessageAssembler.append, if_pos htruncated]
    rw [happend] at hopcode ⊢
    refine ⟨fun hnil => absurd hnil (by simp), hopcode, h.isPrefix.trans hbegins, ?_, fun _ => ?_⟩
    · intro hwhole
      rw [htruncated] at hwhole
      cases hwhole
    · have := h.flagged htruncated
      omega
  | false =>
    obtain ⟨hbuffer, -⟩ := h.whole htruncated
    by_cases hfits : a.buffer.length + frame.payload.length ≤ maxReassembledMessageBytes
    · have happend : a.append frame.payload = { a with buffer := a.buffer ++ frame.payload } := by
        rw [WsMessageAssembler.append, if_neg (by simp [htruncated]), if_pos hfits]
      rw [happend] at hopcode ⊢
      have hwhole : a.buffer ++ frame.payload = payloadOf (fragments ++ [frame]) := by
        rw [payloadOf_append, hbuffer]
      refine ⟨fun hnil => absurd hnil (by simp), hopcode, hwhole ▸ prefix_rfl, fun _ =>
        ⟨hwhole, ?_⟩, fun hflag => ?_⟩
      · rw [length_append]
        exact hfits
      · rw [htruncated] at hflag
        cases hflag
    · have happend : a.append frame.payload = { a with truncated := true } := by
        rw [WsMessageAssembler.append, if_neg (by simp [htruncated]), if_neg hfits]
      rw [happend] at hopcode ⊢
      refine ⟨fun hnil => absurd hnil (by simp), hopcode, h.isPrefix.trans hbegins, nofun, fun _ => ?_⟩
      rw [hbuffer] at hfits
      omega

theorem step (h : Holds fragments a) (sessionId : String) (direction : WsDirection)
    (hvalid : (fragmentStep (!fragments.isEmpty) frame).isSome = true) :
    Holds (collectFragment fragments frame) (assembleWsMessage sessionId direction frame a).2 := by
  unfold fragmentStep at hvalid
  unfold assembleWsMessage collectFragment
  cases hopcode : frame.opcode with
  | close | ping | pong => simpa [isControl] using h
  | text | binary =>
    cases fragments with
    | cons first rest => simp [hopcode] at hvalid
    | nil =>
      have hidle : a.startOpcode = none := by rw [h.idle rfl]; rfl
      cases hfin : frame.fin with
      | true => simpa [isControl, hidle, hfin] using h
      | false =>
        have hstart := h.start frame
        rw [hopcode] at hstart
        simpa [isControl, hidle, hfin] using hstart
  | continuation =>
    cases fragments with
    | nil => simp [hopcode] at hvalid
    | cons first rest =>
      have hopen : a.startOpcode = some first.opcode := h.opcode first rfl
      cases hfin : frame.fin with
      | true =>
        simpa [isControl, hopen, hfin, WsMessageAssembler.reset, WsMessageAssembler.new] using
          holds_new
      | false =>
        have happend := h.append (cons_ne_nil first rest) frame
        simpa [isControl, hopen, hfin] using happend

end Holds

theorem fragmentStep_collect {fragments : List WsFrame} {frame : WsFrame} {b : Bool}
    (h : fragmentStep (!fragments.isEmpty) frame = some b) :
    b = !(collectFragment fragments frame).isEmpty := by
  unfold fragmentStep at h
  unfold collectFragment
  cases hopcode : frame.opcode <;> cases hfin : frame.fin <;> cases fragments <;>
    simp_all [isControl]

theorem holds_fragmentsInProgress (sessionId : String) (direction : WsDirection)
    {frames : List WsFrame} :
    ∀ {fragments : List WsFrame} {a : WsMessageAssembler} {b : Bool}, Holds fragments a →
      Run.exec fragmentStep (!fragments.isEmpty) frames = some b →
        b = !(frames.foldl collectFragment fragments).isEmpty ∧
          Holds (frames.foldl collectFragment fragments)
            (assembleWsMessages sessionId direction frames a).2 := by
  induction frames with
  | nil =>
    intro fragments a b h hrun
    exact ⟨(Option.some.inj hrun).symm, h⟩
  | cons frame frames ih =>
    intro fragments a b h hrun
    obtain ⟨c, hc, hrest⟩ := Run.exec_cons_some.mp hrun
    have hstep := h.step sessionId direction (by rw [hc]; rfl)
    rw [fragmentStep_collect hc] at hrest
    exact ih hstep hrest

theorem Holds.final {fragments : List WsFrame} {a : WsMessageAssembler} {frame : WsFrame}
    (h : Holds fragments a) (sessionId : String) (direction : WsDirection)
    (hvalid : (fragmentStep (!fragments.isEmpty) frame).isSome = true)
    (hdata : frame.opcode.isControl = false) (hfin : frame.fin = true) :
    ∃ first kept truncated, (fragments ++ [frame]).head? = some first ∧
      (assembleWsMessage sessionId direction frame a).1 =
        { buildWsMessageRaw sessionId direction first.opcode kept true with truncated := truncated } ∧
      kept <+: payloadOf (fragments ++ [frame]) ∧
      (truncated = false → kept = payloadOf (fragments ++ [frame])) ∧
      (truncated = true → maxReassembledMessageBytes < (payloadOf (fragments ++ [frame])).length) ∧
      (fragments ≠ [] → truncated = false → kept.length ≤ maxReassembledMessageBytes) ∧
      (fragments = [] → truncated = false) := by
  unfold fragmentStep at hvalid
  unfold assembleWsMessage
  cases fragments with
  | nil =>
    -- a message in one frame
    have hpayload : payloadOf ([] ++ [frame]) = frame.payload := by simp [payloadOf]
    have hidle : a.startOpcode = none := by rw [h.idle rfl]; rfl
    refine ⟨frame, frame.payload, false, rfl, ?_, hpayload ▸ prefix_rfl, fun _ => hpayload.symm,
      fun hflag => absurd hflag Bool.false_ne_true, fun hne => absurd rfl hne, fun _ => rfl⟩
    cases hopcode : frame.opcode <;>
      simp_all [isControl, buildWsMessage, buildWsMessageRaw]
  | cons first rest =>
    have hopen : a.startOpcode = some first.opcode := h.opcode first rfl
    have hcontinuation : frame.opcode = .continuation := by
      cases hopcode : frame.opcode <;> simp_all [isControl]
    have happend := h.append (cons_ne_nil first rest) frame
    refine ⟨first, (a.append frame.payload).buffer, (a.append frame.payload).truncated, rfl, ?_,
      happend.isPrefix, fun hwhole => (happend.whole hwhole).1, happend.flagged,
      fun _ hwhole => (happend.whole hwhole).2, fun hnil => absurd hnil (cons_ne_nil first rest)⟩
    simp only [hcontinuation, hopen, hfin, if_true]

/-- In a valid sequence of frames, each final fragment emits the message of its fragments with the opcode
of the first one: whole if it is not longer than the cap, else a prefix that is flagged. A message that
was not fragmented is emitted whole. Then the assembler is idle, and control frames leave it as it is. -/
theorem messages_reassembled (sessionId : String) (direction : WsDirection)
    (before : List WsFrame) (frame : WsFrame) (rest : List WsFrame)
    (h : ValidFragments (before ++ frame :: rest)) :
    let a := (assembleWsMessages sessionId direction before .new).2
    let emitted := assembleWsMessage sessionId direction frame a
    let fragments := fragmentsInProgress before ++ [frame]
    (frame.opcode.isControl = true → emitted.2 = a) ∧
    (frame.opcode.isControl = false → frame.fin = true →
      emitted.2 = .new ∧
      ∃ first kept truncated, fragments.head? = some first ∧
        emitted.1 = { buildWsMessageRaw sessionId direction first.opcode kept true with
          truncated := truncated } ∧
        ((payloadOf fragments).length ≤ maxReassembledMessageBytes →
          kept = payloadOf fragments ∧ truncated = false) ∧
        (maxReassembledMessageBytes < (payloadOf fragments).length → fragments ≠ [frame] →
          truncated = true ∧ kept <+: payloadOf fragments) ∧
        (fragments = [frame] → kept = payloadOf fragments ∧ truncated = false)) := by
  intro a emitted fragments
  obtain ⟨b, hb⟩ := Option.isSome_iff_exists.mp h
  obtain ⟨c, hc, hrest⟩ := Run.exec_append.mp hb
  obtain ⟨d, hd, -⟩ := Run.exec_cons_some.mp hrest
  obtain ⟨rfl, hholds⟩ := holds_fragmentsInProgress sessionId direction holds_new hc
  have hvalid : (fragmentStep (!(fragmentsInProgress before).isEmpty) frame).isSome = true := by
    rw [fragmentsInProgress, hd]
    rfl
  refine ⟨fun hcontrol => ?_, fun hdata hfin => ⟨?_, ?_⟩⟩
  · show (assembleWsMessage sessionId direction frame a).2 = a
    unfold assembleWsMessage
    cases hopcode : frame.opcode <;> simp_all [isControl]
  · have hstep := Holds.step hholds sessionId direction hvalid
    refine hstep.idle ?_
    rw [collectFragment, if_neg (by simp [hdata]), if_pos hfin]
  · obtain ⟨first, kept, truncated, hfirst, hmessage, hbegins, hwhole, hflagged, hfits,
      hsingle⟩ :=
      Holds.final hholds sessionId direction hvalid hdata hfin
    refine ⟨first, kept, truncated, hfirst, hmessage, fun hshort => ?_, fun hlong hne =>
      ?_, fun hone => ?_⟩
    · cases truncated with
      | false => exact ⟨hwhole rfl, rfl⟩
      | true => exact absurd (hflagged rfl) (Nat.not_lt.mpr hshort)
    · cases truncated with
      | true => exact ⟨rfl, hbegins⟩
      | false =>
        have hopen : fragmentsInProgress before ≠ [] := by
          intro hnil
          exact hne (by simp [fragments, hnil])
        have hkept := hfits hopen rfl
        rw [hwhole rfl] at hkept
        exact absurd hkept (Nat.not_le.mpr hlong)
    · have hnil : fragmentsInProgress before = [] := by simpa [fragments] using hone
      exact ⟨hwhole (hsingle hnil), hsingle hnil⟩

theorem reassembled_text_with_ping :
    let text : WsFrame := ⟨false, .text, false, [104]⟩
    let ping : WsFrame := ⟨true, .ping, false, []⟩
    let last : WsFrame := ⟨true, .continuation, false, [105]⟩
    ValidFragments ([text, ping] ++ last :: []) ∧
      assembleWsMessage "s" .clientToServer last
        (assembleWsMessages "s" .clientToServer [text, ping] .new).2 =
          ({ buildWsMessageRaw "s" .clientToServer .text [104, 105] true with
            truncated := false }, .new) := by
  intro text ping last
  obtain ⟨hnew, first, kept, truncated, hfirst, hmessage, hwhole, -⟩ :=
    (messages_reassembled "s" .clientToServer [text, ping] last [] (by decide)).2 rfl rfl
  obtain ⟨rfl, rfl⟩ := hwhole (by decide)
  cases hfirst
  exact ⟨by decide, Prod.ext hmessage hnew⟩

end AiProxy.Ws
