import AiProxy.Ws.Proofs.FrameProofs
import Mathlib.Tactic.Ring

/-!
# Proofs: frames are read as they are written

The three forms of the length field and the chunks of a masked payload are read back
(`tryParseWsFrame_writeWsFrame`).
-/

namespace AiProxy.Ws

open List

variable {head1 : UInt8}

theorem length_toBeBytes (width n : Nat) : (toBeBytes width n).length = width := by
  induction width with
  | zero => rfl
  | succ width ih => rw [toBeBytes, length_cons, ih]

theorem foldl_toBeBytes (width n acc : Nat) :
    (toBeBytes width n).foldl (fun acc b => acc * 256 + b.toNat) acc =
      acc * 256 ^ width + n % 256 ^ width := by
  induction width generalizing acc with
  | zero => simp [toBeBytes, Nat.mod_one]
  | succ width ih =>
    have hbyte : (UInt8.ofNat (n / 256 ^ width)).toNat = n / 256 ^ width % 256 := by simp
    rw [toBeBytes, foldl_cons, ih, hbyte, Nat.pow_succ, Nat.mod_mul]
    ring

theorem fromBeBytes_toBeBytes {width n : Nat} (h : n < 256 ^ width) :
    fromBeBytes (toBeBytes width n) = n := by
  rw [fromBeBytes, foldl_toBeBytes, Nat.zero_mul, zero_add, Nat.mod_eq_of_lt h]

theorem length_applyMask (key payload : List UInt8) :
    (applyMask key payload).length = payload.length := by
  rw [applyMask, length_mapIdx]

theorem applyMask_applyMask (key payload : List UInt8) :
    applyMask key (applyMask key payload) = payload := by
  refine ext_getElem (by rw [length_applyMask, length_applyMask]) fun i h₁ h₂ => ?_
  simp only [applyMask, getElem_mapIdx]
  rw [UInt8.xor_assoc, UInt8.xor_self, UInt8.xor_zero]

theorem maskChunks_eq (key payload : List UInt8) {chunkLen : Nat} (hchunk : 0 < chunkLen) :
    ∀ fuel offset, payload.length ≤ offset + fuel →
      maskChunks key payload chunkLen fuel offset = (applyMask key payload).drop offset := by
  intro fuel
  induction fuel with
  | zero =>
    intro offset hfuel
    rw [maskChunks, drop_eq_nil_of_le (by rw [length_applyMask]; omega)]
  | succ fuel ih =>
    intro offset hfuel
    rw [maskChunks]
    split
    · next hlt =>
      simp only
      rw [ih _ (by omega)]
      -- the bytes before the end of the chunk, then those after it
      generalize hstop : min (offset + chunkLen) payload.length = stop
      have hle : offset ≤ stop := by omega
      have hsplit : (applyMask key payload).drop offset =
          ((applyMask key payload).drop offset).take (stop - offset) ++
            (applyMask key payload).drop stop := by
        conv_lhs => rw [← take_append_drop (stop - offset) ((applyMask key payload).drop offset)]
        rw [drop_drop, Nat.add_sub_cancel' hle]
      rw [hsplit]
      congr 1
      refine ext_getElem (by simp [length_applyMask]) fun i h₁ h₂ => ?_
      simp [applyMask]
    · rw [drop_eq_nil_of_le (by rw [length_applyMask]; omega)]

theorem writeWsFrame_eq (frame : WsFrame) (maskOutput : Bool) (maskKey : MaskKey) :
    writeWsFrame frame maskOutput maskKey = wsFrameHead frame maskOutput ++
      if maskOutput then maskKey.toList ++ applyMask maskKey.toList frame.payload
      else frame.payload := by
  cases maskOutput with
  | false => rfl
  | true =>
    have hchunk : 0 < min wsMaskChunkBytes (max frame.payload.length 1) := by
      simp only [wsMaskChunkBytes]
      omega
    simp only [writeWsFrame, if_true]
    rw [maskChunks_eq maskKey.toList frame.payload hchunk _ 0 (by omega), drop_zero,
      append_assoc]

theorem head0_bits (fin : Bool) (opcode : WsOpcode) :
    let head0 := (if fin then 0x80 else 0) ||| opcode.toU8
    head0 &&& 0x70 = 0 ∧ head0 &&& 0x0F = opcode.toU8 ∧ decide (head0 &&& 0x80 ≠ 0) = fin ∧
      WsOpcode.fromU8 opcode.toU8 = opcode ∧
      ¬ ((3 ≤ opcode.toU8 ∧ opcode.toU8 ≤ 7) ∨ (11 ≤ opcode.toU8 ∧ opcode.toU8 ≤ 15)) := by
  cases fin <;> cases opcode <;> decide

theorem head1_bits (maskOutput : Bool) {n : Nat} (h : n < 128) :
    let head1 := (if maskOutput then 0x80 else 0) ||| UInt8.ofNat n
    (head1 &&& 0x7F).toNat = n ∧ (head1 &&& 0x80 = 0 ↔ maskOutput = false) := by
  have hall : ∀ m : Bool, ∀ n : Fin 128,
      (((if m then 0x80 else 0) ||| UInt8.ofNat n.val) &&& 0x7F).toNat = n.val ∧
        (((if m then 0x80 else 0) ||| UInt8.ofNat n.val) &&& 0x80 = 0 ↔ m = false) := by decide
  exact hall maskOutput ⟨n, h⟩

theorem checkHead_ok {fin : Bool} {opcode : WsOpcode}
    (hcontrol : opcode.isControl = true → fin = true ∧ (head1 &&& 0x7F).toNat ≤ 125) :
    checkHead ((if fin then 0x80 else 0) ||| opcode.toU8) head1 = .ok () := by
  obtain ⟨hrsv, hraw, hfin, hopcode, hreserved⟩ := head0_bits fin opcode
  rw [checkHead]
  simp only [hrsv, hraw, hopcode, ne_eq, not_true_eq_false, if_false, if_neg hreserved]
  have hfragmented : ¬ (opcode.isControl = true ∧
      ((if fin then 0x80 else 0) ||| opcode.toU8) &&& 0x80 = 0) := by
    rintro ⟨hc, hzero⟩
    rw [(hcontrol hc).1] at hfin hzero
    exact of_decide_eq_true hfin hzero
  have hoversized : ¬ (opcode.isControl = true ∧ 125 < (head1 &&& 0x7F).toNat) := by
    rintro ⟨hc, hlong⟩
    have := (hcontrol hc).2
    omega
  rw [if_neg hfragmented, if_neg hoversized]

theorem wsFrameHead_eq (frame : WsFrame) (maskOutput : Bool)
    (hsize : frame.payload.length ≤ maxWsFrameSize) :
    ∃ n ext, n < 128 ∧ (frame.payload.length ≤ 125 → n ≤ 125) ∧
      wsFrameHead frame maskOutput = ((if frame.fin then 0x80 else 0) ||| frame.opcode.toU8) ::
        ((if maskOutput then 0x80 else 0) ||| UInt8.ofNat n) :: ext ∧
      ∀ head0 head1 tail, (head1 &&& 0x7F).toNat = n →
        payloadLength (head0 :: head1 :: (ext ++ tail)) head1 =
          some (frame.payload.length, 2 + ext.length) := by
  have hfield : ∀ width, (toBeBytes width frame.payload.length).length = width :=
    fun width => length_toBeBytes width _
  rw [maxWsFrameSize] at hsize
  by_cases hshort : frame.payload.length < 126
  · refine ⟨frame.payload.length, [], by omega, id, by simp [wsFrameHead, hshort], ?_⟩
    intro head0 head1 tail hbits
    rw [payloadLength]
    simp only [hbits]
    rw [if_neg (by omega), if_neg (by omega)]
    rfl
  · by_cases hmedium : frame.payload.length ≤ 65535
    · refine ⟨126, toBeBytes 2 frame.payload.length, by omega, by omega, ?_, ?_⟩
      · simp [wsFrameHead, hshort, hmedium]
      · intro head0 head1 tail hbits
        have hread : fromBeBytes (toBeBytes 2 frame.payload.length) = frame.payload.length :=
          fromBeBytes_toBeBytes (by omega)
        rw [payloadLength]
        simp only [hbits, if_true, length_cons, length_append, hfield, drop_succ_cons,
          drop_zero]
        rw [if_neg (by omega), take_left' (hfield 2), hread]
    · refine ⟨127, toBeBytes 8 frame.payload.length, by omega, by omega, ?_, ?_⟩
      · simp [wsFrameHead, hshort, hmedium]
      · intro head0 head1 tail hbits
        have hread : fromBeBytes (toBeBytes 8 frame.payload.length) = frame.payload.length :=
          fromBeBytes_toBeBytes (by omega)
        rw [payloadLength]
        simp only [hbits, length_cons, length_append, hfield, drop_succ_cons,
          drop_zero]
        rw [if_neg (by omega), if_pos trivial, if_neg (by omega), take_left' (hfield 8), hread]

theorem tryParseWsFrame_parts {head0 : UInt8} {rest front key raw tail : List UInt8}
    {len offset : Nat} (hcheck : checkHead head0 head1 = .ok ())
    (hlength : payloadLength (head0 :: head1 :: rest) head1 = some (len, offset))
    (hsize : len ≤ maxWsFrameSize)
    (hkey : maskKey (head0 :: head1 :: rest) head1 offset = some (key, front.length))
    (hparts : head0 :: head1 :: rest = front ++ (raw ++ tail)) (hraw : raw.length = len) :
    tryParseWsFrame (head0 :: head1 :: rest) = .ok (some
      ({ fin := decide (head0 &&& 0x80 ≠ 0)
         opcode := .fromU8 (head0 &&& 0x0F)
         mask := false
         payload := if head1 &&& 0x80 = 0 then raw else applyMask key raw },
       front.length + len)) := by
  have hfit : ¬ (head0 :: head1 :: rest).length < front.length + len := by
    rw [hparts, length_append, length_append]
    omega
  have htake : ((head0 :: head1 :: rest).drop front.length).take len = raw := by
    rw [hparts, drop_left, take_left' hraw]
  simp only [tryParseWsFrame, hcheck, hlength, hkey, if_neg (not_lt.mpr hsize), if_neg hfit, htake]

theorem tryParseWsFrame_writeWsFrame {frame : WsFrame} (h : frame.Allowed) (maskOutput : Bool)
    (key : MaskKey) (suffix : List UInt8) :
    tryParseWsFrame (writeWsFrame frame maskOutput key ++ suffix) =
      .ok (some ({ frame with mask := false }, (writeWsFrame frame maskOutput key).length)) := by
  obtain ⟨n, ext, hn, hshort, hhead, hlength⟩ := wsFrameHead_eq frame maskOutput h.size
  obtain ⟨hbits, hmask⟩ := head1_bits maskOutput hn
  obtain ⟨-, hraw, hfin, hopcode, -⟩ := head0_bits frame.fin frame.opcode
  have hcheck : checkHead ((if frame.fin then 0x80 else 0) ||| frame.opcode.toU8)
      ((if maskOutput then 0x80 else 0) ||| UInt8.ofNat n) = .ok () :=
    checkHead_ok fun hc => ⟨(h.control hc).1, hbits.trans_le (hshort (h.control hc).2)⟩
  rw [writeWsFrame_eq, hhead]
  generalize ((if frame.fin then 0x80 else 0) ||| frame.opcode.toU8 : UInt8) = head0 at *
  generalize ((if maskOutput then 0x80 else 0) ||| UInt8.ofNat n : UInt8) = head1 at *
  cases maskOutput with
  | false =>
    have hunmasked : head1 &&& 0x80 = 0 := hmask.mpr rfl
    have hkey : maskKey (head0 :: head1 :: (ext ++ (frame.payload ++ suffix))) head1 (2 + ext.length) =
        some ([0, 0, 0, 0], (head0 :: head1 :: ext).length) := by
      rw [maskKey, if_pos hunmasked, length_cons, length_cons, add_comm]
    have hparse := tryParseWsFrame_parts hcheck (hlength head0 head1 _ hbits) h.size hkey rfl rfl
    simp only [Bool.false_eq_true, if_false, cons_append, append_assoc]
    rw [hparse, hraw, hopcode, hfin, if_pos hunmasked]
    simp only [length_cons, length_append]
    congr 3
    omega
  | true =>
    have hmasked : head1 &&& 0x80 ≠ 0 := fun hzero => Bool.noConfusion (hmask.mp hzero)
    have hkeyLength : key.toList.length = 4 := by simp
    have hkey : maskKey (head0 :: head1 :: (ext ++ (key.toList ++
        (applyMask key.toList frame.payload ++ suffix)))) head1 (2 + ext.length) =
        some (key.toList, (head0 :: head1 :: (ext ++ key.toList)).length) := by
      rw [maskKey, if_neg hmasked, if_neg (by simp; omega)]
      have hdrop : (head0 :: head1 :: (ext ++ (key.toList ++
          (applyMask key.toList frame.payload ++ suffix)))).drop (2 + ext.length) =
          key.toList ++ (applyMask key.toList frame.payload ++ suffix) := by
        rw [add_comm, drop_succ_cons, drop_succ_cons, drop_left]
      rw [hdrop, take_left' hkeyLength]
      simp only [length_cons, length_append, hkeyLength]
      congr 2
      omega
    have hparts : head0 :: head1 :: (ext ++ (key.toList ++
        (applyMask key.toList frame.payload ++ suffix))) =
        (head0 :: head1 :: (ext ++ key.toList)) ++ (applyMask key.toList frame.payload ++ suffix) := by
      simp
    have hparse := tryParseWsFrame_parts hcheck (hlength head0 head1 _ hbits) h.size hkey hparts
      (length_applyMask key.toList frame.payload)
    simp only [if_true, cons_append, append_assoc]
    rw [hparse, hraw, hopcode, hfin, if_neg hmasked, applyMask_applyMask]
    simp only [length_cons, length_append, length_applyMask]
    congr 3
    omega

theorem control_of_checkHead {head0 : UInt8} (h : checkHead head0 head1 = .ok ())
    (hcontrol : (WsOpcode.fromU8 (head0 &&& 0x0F)).isControl = true) :
    head0 &&& 0x80 ≠ 0 ∧ (head1 &&& 0x7F).toNat ≤ 125 := by
  rw [checkHead] at h
  split_ifs at h with _ _ hfin hlen
  exact ⟨fun hzero => hfin ⟨hcontrol, hzero⟩, not_lt.mp fun hlong => hlen ⟨hcontrol, hlong⟩⟩

theorem payloadLength_short {buf : List UInt8} {len offset : Nat}
    (h : payloadLength buf head1 = some (len, offset)) (hshort : (head1 &&& 0x7F).toNat ≤ 125) :
    len ≤ 125 := by
  rw [payloadLength, if_neg (by omega), if_neg (by omega)] at h
  cases h
  exact hshort

theorem allowed_of_tryParseWsFrame {bytes : List UInt8} {frame : WsFrame} {n : Nat}
    (h : tryParseWsFrame bytes = .ok (some (frame, n))) : frame.Allowed ∧ frame.mask = false := by
  match bytes, h with
  | [], h => simp [tryParseWsFrame] at h
  | [_], h => simp [tryParseWsFrame] at h
  | head0 :: head1 :: rest, h =>
    simp only [tryParseWsFrame] at h
    split at h
    · cases h
    · next hcheck =>
      split at h
      · cases h
      · next len offset hlength =>
        split at h
        · cases h
        · next hsize =>
          split at h
          · cases h
          · split at h
            · cases h
            · next key offset' hkey hfit =>
              cases h
              have hpayload : (if head1 &&& 0x80 = 0 then
                  ((head0 :: head1 :: rest).drop offset').take len
                  else applyMask key (((head0 :: head1 :: rest).drop offset').take len)).length =
                    len := by
                split <;> simp only [length_applyMask, length_take, length_drop] <;> omega
              refine ⟨⟨fun hcontrol => ?_, ?_⟩, rfl⟩
              · obtain ⟨hfin, hshort⟩ := control_of_checkHead hcheck hcontrol
                exact ⟨decide_eq_true hfin, hpayload.trans_le (payloadLength_short hlength hshort)⟩
              · exact hpayload.trans_le (not_lt.mp hsize)

/-- Frames are read as they are written, and frames that were read are read again. -/
theorem frame_codec_round_trip :
    (∀ frame : WsFrame, frame.Allowed → ∀ (maskOutput : Bool) (key : MaskKey)
      (suffix : List UInt8),
      tryParseWsFrame (writeWsFrame frame maskOutput key ++ suffix) =
        .ok (some ({ frame with mask := false }, (writeWsFrame frame maskOutput key).length))) ∧
    ∀ (bytes : List UInt8) (frame : WsFrame) (n : Nat),
      tryParseWsFrame bytes = .ok (some (frame, n)) → ∀ (maskOutput : Bool) (key : MaskKey),
        tryParseWsFrame (writeWsFrame frame maskOutput key) =
          .ok (some (frame, (writeWsFrame frame maskOutput key).length)) := by
  refine ⟨fun frame h => tryParseWsFrame_writeWsFrame h, fun bytes frame n h maskOutput key => ?_⟩
  obtain ⟨hallowed, hmask⟩ := allowed_of_tryParseWsFrame h
  have hparse := tryParseWsFrame_writeWsFrame hallowed maskOutput key []
  rw [append_nil, ← hmask] at hparse
  exact hparse

theorem frame_codec_masked_ping :
    tryParseWsFrame (writeWsFrame ⟨true, .ping, false, [1, 2]⟩ true ⟨#[7, 8, 9, 10], rfl⟩ ++ [0x81]) =
        .ok (some (⟨true, .ping, false, [1, 2]⟩, 8)) ∧
      tryParseWsFrame (writeWsFrame ⟨false, .text, false, [65]⟩ true ⟨#[7, 8, 9, 10], rfl⟩) =
        .ok (some (⟨false, .text, false, [65]⟩, 7)) :=
  ⟨frame_codec_round_trip.1 ⟨true, .ping, false, [1, 2]⟩ ⟨fun _ => by decide, by decide⟩ true
      ⟨#[7, 8, 9, 10], rfl⟩ [0x81],
    -- the length of a short frame in the long form
    frame_codec_round_trip.2 [0x01, 126, 0, 1, 65] ⟨false, .text, false, [65]⟩ 5 (by decide) true
      ⟨#[7, 8, 9, 10], rfl⟩⟩

end AiProxy.Ws
