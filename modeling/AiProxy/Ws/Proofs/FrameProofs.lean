import AiProxy.Ws.Frame

/-!
# Proofs: the frame parser

The parser is stable: whatever it answers on a buffer, other than "incomplete", it answers on every
extension of the buffer.
-/

namespace AiProxy.Ws

open List
open Incremental (slice_append)

variable {buf b : List UInt8} {head1 : UInt8}

theorem payloadLength_append {r : Nat × Nat} (t : List UInt8)
    (h : payloadLength buf head1 = some r) : payloadLength (buf ++ t) head1 = some r := by
  unfold payloadLength at h ⊢
  simp only [length_append] at h ⊢
  split_ifs at h ⊢ with h1 h2 h3 h4 h5
  · omega
  · rw [slice_append t (by omega)]
    exact h
  · omega
  · rw [slice_append t (by omega)]
    exact h
  · exact h

theorem payloadLength_offset {len offset : Nat}
    (h : payloadLength buf head1 = some (len, offset)) : 2 ≤ offset := by
  simp only [payloadLength] at h
  split_ifs at h <;> simp only [Option.some.injEq, Prod.mk.injEq] at h <;> omega

theorem maskKey_append {offset : Nat} {r : List UInt8 × Nat} (t : List UInt8)
    (h : maskKey buf head1 offset = some r) :
    maskKey (buf ++ t) head1 offset = some r := by
  unfold maskKey at h ⊢
  simp only [length_append] at h ⊢
  split_ifs at h ⊢ with h1 h2 h3
  · exact h
  · omega
  · rw [slice_append t (by omega)]
    exact h

theorem maskKey_offset {key : List UInt8} {offset offset' : Nat}
    (h : maskKey buf head1 offset = some (key, offset')) : offset ≤ offset' := by
  unfold maskKey at h
  split_ifs at h <;> simp only [Option.some.injEq, Prod.mk.injEq] at h <;> omega

theorem tryParseWsFrame_size {f : WsFrame} {n : Nat}
    (h : tryParseWsFrame b = .ok (some (f, n))) : 0 < n ∧ n ≤ b.length := by
  match b, h with
  | [], h | [_], h => simp [tryParseWsFrame] at h
  | head0 :: head1 :: rest, h =>
    simp only [tryParseWsFrame] at h
    split at h
    · cases h
    · split at h
      · cases h
      · rename_i len offset hl
        have ho := payloadLength_offset hl
        split at h
        · cases h
        · split at h
          · cases h
          · rename_i key offset' hk
            have ho' := maskKey_offset hk
            split at h
            · cases h
            · simp only [Except.ok.injEq, Option.some.injEq, Prod.mk.injEq] at h
              omega

theorem tryParseWsFrame_append (b t : List UInt8) :
    tryParseWsFrame b = .ok none ∨ tryParseWsFrame (b ++ t) = tryParseWsFrame b := by
  match b with
  | [] | [_] => exact .inl rfl
  | head0 :: head1 :: rest =>
    simp only [tryParseWsFrame, cons_append]
    cases checkHead head0 head1 with
    | error e => exact .inr rfl
    | ok _ =>
      cases hl : payloadLength (head0 :: head1 :: rest) head1 with
      | none => exact .inl rfl
      | some r =>
        have hl' : payloadLength (head0 :: head1 :: (rest ++ t)) head1 = some r :=
          payloadLength_append t hl
        rw [hl']
        dsimp only
        split
        · exact .inr rfl
        · cases hk : maskKey (head0 :: head1 :: rest) head1 r.2 with
          | none => exact .inl rfl
          | some k =>
            have hk' : maskKey (head0 :: head1 :: (rest ++ t)) head1 r.2 = some k :=
              maskKey_append t hk
            rw [hk']
            dsimp only
            split
            · exact .inl rfl
            · next hlen =>
              have hlen' : ¬ (head0 :: head1 :: (rest ++ t)).length < k.2 + r.1 := by
                simp only [length_cons, length_append] at hlen ⊢
                omega
              rw [if_neg hlen', ← cons_append, ← cons_append, slice_append t (by omega)]
              exact .inr rfl

theorem tryParseWsFrame_stable : Incremental.Stable tryParseWsFrame where
  size := tryParseWsFrame_size
  value t h := by
    rcases tryParseWsFrame_append _ t with hnone | happend
    · cases hnone.symm.trans h
    · exact happend.trans h
  error t h := by
    rcases tryParseWsFrame_append _ t with hnone | happend
    · cases hnone.symm.trans h
    · exact happend.trans h

@[simp] theorem isWsProtocolError_wsProtocolError (msg : String) :
    isWsProtocolError (wsProtocolError msg) = true := by
  simp only [wsProtocolError, isWsProtocolError, String.toList_append, append_assoc]
  exact isPrefixOf_iff_prefix.mpr (prefix_append _ _)

theorem isWsProtocolError_of_error {e : ProxyError}
    (h : tryParseWsFrame b = .error e) : isWsProtocolError e = true := by
  match b, h with
  | [], h | [_], h => simp [tryParseWsFrame] at h
  | head0 :: head1 :: rest, h =>
    simp only [tryParseWsFrame] at h
    split at h
    · rename_i e' he
      cases h
      unfold checkHead at he
      simp only at he
      split_ifs at he <;> cases he <;> simp
    · split at h
      · cases h
      · split at h
        · cases h
          simp
        · split at h
          · cases h
          · split at h <;> cases h

end AiProxy.Ws
