import AiProxy.Tunnel.ResponseHead

/-!
# When a response head is read

The size is checked before the end of the head is looked for, on all that has been read.
-/

namespace AiProxy.Tunnel

open List
open Reads (position received)

theorem readHead_splits_iff {buf stream : List UInt8} {reads : List (List UInt8)} {n : Nat}
    (hstream : buf ++ reads.flatten = stream) (hreads : IsReads reads)
    (hend : position headEnd stream = some n) (hsize : n + 4 ≤ maxHeaderBytes)
    (hbuf : buf.length < n + 4) :
    (∃ h, readHead buf reads = .ok h ∧ h.Splits stream (n + 4)) ↔
      buf.length + received (n + 4 - buf.length) reads ≤ maxHeaderBytes := by
  induction reads generalizing buf with
  | nil =>
    have := Reads.position_le hend
    have hlength : headEnd.length = 4 := rfl
    rw [← hstream, flatten_nil, append_nil] at this
    omega
  | cons chunk reads ih =>
    obtain ⟨⟨hchunk, -⟩, hreads⟩ := forall_mem_cons.mp hreads
    rw [flatten_cons, ← append_assoc] at hstream
    rw [readHead, if_neg hchunk, received, length_append]
    by_cases hwhole : n + 4 ≤ (buf ++ chunk).length
    · -- this read completes the head
      have hat : position headEnd (buf ++ chunk) = some n :=
        (Reads.position_append (by decide)).mpr ⟨hstream ▸ hend, hwhole⟩
      rw [length_append] at hwhole
      rw [if_pos (by omega : n + 4 - buf.length ≤ chunk.length), hat]
      split
      · next hlarge =>
        refine iff_of_false ?_ (by omega)
        rintro ⟨h, hok, -⟩
        cases hok
      · next hsmall =>
        subst hstream
        refine iff_of_true ⟨_, rfl, ⟨?_, ?_⟩⟩ (by omega)
        · exact (take_append_of_le_length (by rw [length_append]; omega)).symm
        · exact (drop_append_of_le_length (by rw [length_append]; omega)).symm
    · have hnone : position headEnd (buf ++ chunk) = none :=
        Reads.position_none (by decide) (hstream ▸ hend) (lt_of_not_ge hwhole)
      have hih := ih hstream hreads (lt_of_not_ge hwhole)
      rw [length_append] at hwhole hih
      rw [if_neg (by omega : ¬ n + 4 - buf.length ≤ chunk.length), if_neg (by omega), hnone]
      rw [show n + 4 - buf.length - chunk.length = n + 4 - (buf.length + chunk.length) by omega,
        ← Nat.add_assoc]
      exact hih

/-- The head of a stream is read, with the rest of the stream left, exactly when what has been received
with the end of the head is not larger than a head may be. -/
theorem response_head_read_iff (reads : List (List UInt8)) (n : Nat) (hreads : IsReads reads)
    (hend : position headEnd reads.flatten = some n) (hsize : n + 4 ≤ maxHeaderBytes) :
    (∃ h, readHttpResponseHead reads = .ok h ∧ h.Splits reads.flatten (n + 4)) ↔
      received (n + 4) reads ≤ maxHeaderBytes := by
  have h := readHead_splits_iff (nil_append _) hreads hend hsize (Nat.succ_pos _)
  rw [length_nil, Nat.zero_add] at h
  exact h

/-- The end of a head in two reads, the second with the beginning of a body. -/
theorem response_head_read_split :
    ∃ h, readHttpResponseHead [[0x0d, 0x0a, 0x0d], [0x0a, 0x7b]] = .ok h ∧
      h.Splits [0x0d, 0x0a, 0x0d, 0x0a, 0x7b] 4 :=
  (response_head_read_iff [[0x0d, 0x0a, 0x0d], [0x0a, 0x7b]] 0 (by unfold IsReads; decide) (by decide)
    (by decide)).mpr (by decide)

theorem position_after_name (k : Nat) (rest : List UInt8) :
    position headEnd (List.replicate k 0x61 ++ (headEnd ++ rest)) = some k := by
  induction k with
  | zero => rfl
  | succ k ih =>
    rw [replicate_succ, cons_append, Reads.position, ih]
    rfl

theorem received_after_replicate (k : Nat) (r : List UInt8) (reads : List (List UInt8)) {m : Nat}
    (hm : 0 < m) :
    received (k * r.length + m) (List.replicate k r ++ reads) = k * r.length + received m reads := by
  induction k with
  | zero => rw [replicate_zero, nil_append, Nat.zero_mul, Nat.zero_add, Nat.zero_add]
  | succ k ih =>
    rw [replicate_succ, cons_append, received, Nat.succ_mul, if_neg (by omega),
      show k * r.length + r.length + m - r.length = k * r.length + m by omega]
    omega

/-- Eight reads of 8191 bytes, and one that ends the head at 65532 bytes and brings five more. -/
def overfullReads : List (List UInt8) :=
  List.replicate 8 (List.replicate 8191 0x61) ++ [headEnd ++ List.replicate 5 0x78]

/-- A head that is small enough is refused for the five bytes that follow it. -/
theorem response_head_refused_for_body :
    IsReads overfullReads ∧ position headEnd overfullReads.flatten = some 65528 ∧
      65528 + 4 ≤ maxHeaderBytes ∧
      ¬ ∃ h, readHttpResponseHead overfullReads = .ok h ∧
        h.Splits overfullReads.flatten (65528 + 4) := by
  have hreads : IsReads overfullReads := by
    intro r hr
    rcases mem_append.mp hr with hr | hr
    · rw [eq_of_mem_replicate hr]
      exact ⟨ne_nil_of_length_pos (by rw [length_replicate]; decide),
        by rw [length_replicate]; decide⟩
    · rw [mem_singleton.mp hr]
      decide
  have hend : position headEnd overfullReads.flatten = some 65528 := by
    rw [overfullReads, flatten_append, flatten_replicate_replicate, flatten_singleton,
      position_after_name]
  have hsize : 65528 + 4 ≤ maxHeaderBytes := by decide
  have hreceived : received (65528 + 4) overfullReads = 65537 := by
    have h := received_after_replicate 8 (List.replicate 8191 0x61)
      [headEnd ++ List.replicate 5 0x78] (m := 4) (by decide)
    rw [length_replicate] at h
    exact h
  refine ⟨hreads, hend, hsize, fun h => ?_⟩
  have hle := (readHead_splits_iff (nil_append _) hreads hend hsize (Nat.succ_pos _)).mp h
  rw [length_nil, Nat.zero_add, hreceived] at hle
  exact absurd hle (by decide)

end AiProxy.Tunnel
