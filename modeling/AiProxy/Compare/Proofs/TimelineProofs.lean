import AiProxy.Compare.Timeline
import AiProxy.Lib.Fallible

/-!
# Every request is counted once

The buckets cover the times from the earliest to the latest one: the last bucket ends after it. As long
as the times are not too far apart, no rounding changes a result.
-/

namespace AiProxy.Compare

open List
open Double (ofInt ofInt_of_lt ceilDiv floorDiv)

theorem exists_extremes {α : Type} {l : List α} {f : α → Int} {time : Int} {times : List Int}
    (h : l.map f = time :: times) : ∃ a ∈ l, ∃ b ∈ l, times.foldl min time = f a ∧
      times.foldl max time = f b ∧ ∀ x ∈ l, f a ≤ f x ∧ f x ≤ f b := by
  have hmin : _ ∈ l.map f ∧ _ := h ▸ min?_eq_some_iff.mp min?_cons'
  have hmax : _ ∈ l.map f ∧ _ := h ▸ max?_eq_some_iff.mp max?_cons'
  obtain ⟨a, ha, hfa⟩ := mem_map.mp hmin.1
  obtain ⟨b, hb, hfb⟩ := mem_map.mp hmax.1
  refine ⟨a, ha, b, hb, hfa.symm, hfb.symm, fun x hx => ?_⟩
  rw [hfa, hfb]
  exact ⟨hmin.2 _ (mem_map_of_mem hx), hmax.2 _ (mem_map_of_mem hx)⟩

theorem countP_before {α : Type} (l : List α) (f : α → Int) {a b : Int} (h : a ≤ b) :
    l.countP (f · < b) = l.countP (f · < a) + l.countP fun x => a ≤ f x && f x < b := by
  induction l with
  | nil => rfl
  | cons x l ih =>
    simp only [countP_cons, ih, Bool.and_eq_true, decide_eq_true_eq]
    split_ifs <;> omega

variable {dates : Dates} {sessions : List SessionSummary} {start width span : Int} {n : Nat}

/-- Where the first `n` buckets start. -/
def bucketStarts (start width : Int) (n : Nat) : List Int :=
  (range n).map fun index : Nat => start + index * width

theorem start_succ (start width : Int) (n : Nat) :
    start + ((n + 1 : Nat) : Int) * width = start + n * width + width := by
  rw [Int.natCast_succ, Int.add_mul, Int.one_mul, Int.add_assoc]

theorem bucketStarts_consecutive : (bucketStarts start width n).IsChain fun a b => b = a + width := by
  rw [bucketStarts, isChain_map, isChain_range]
  exact fun i _ => start_succ start width i

theorem bucketStarts_disjoint (hwidth : 0 ≤ width) :
    (bucketStarts start width n).Pairwise fun a b => a + width ≤ b := by
  rw [bucketStarts, pairwise_map]
  refine pairwise_lt_range.imp fun {i j} hij => ?_
  have hmul : ((i + 1 : Nat) : Int) * width ≤ j * width :=
    Int.mul_le_mul_of_nonneg_right (by omega) hwidth
  rw [← start_succ]
  omega

/-- The counts of the first `n` buckets add up to the number of sessions before the end of the last
one. -/
theorem sum_inBucket (hwidth : 0 ≤ width)
    (hstart : ∀ session ∈ sessions, start ≤ dateMs dates session.startedAt) :
    ((bucketStarts start width n).map (inBucket dates sessions width)).sum =
      sessions.countP fun session => dateMs dates session.startedAt < start + n * width := by
  induction n with
  | zero =>
    refine (countP_eq_zero.mpr fun session hsession => ?_).symm
    simpa using hstart session hsession
  | succ n ih =>
    rw [bucketStarts, range_succ, map_append, map_append, sum_append, ← bucketStarts, ih, map_singleton,
      map_singleton, sum_singleton, inBucket, start_succ]
    exact (countP_before sessions _ (by omega)).symm

theorem sum_inBucket_all (hwidth : 0 ≤ width)
    (htimes : ∀ session ∈ sessions, start ≤ dateMs dates session.startedAt ∧
      dateMs dates session.startedAt < start + n * width) :
    ((bucketStarts start width n).map (inBucket dates sessions width)).sum = sessions.length := by
  rw [sum_inBucket hwidth (fun session hsession => (htimes session hsession).1), countP_eq_length]
  exact fun session hsession => decide_eq_true (htimes session hsession).2

/-- A span of four thousand million million milliseconds, or less, is shorter than the buckets that are
made for it. There are at most 13 of them, and the last one begins within the span. -/
theorem bucketCount_bounds {count : Int} (hspan : 0 ≤ span) (hbound : span ≤ 4000000000000000)
    (hwidth : width = max 1000 (ceilDiv (max 1 (ofInt span)) 12))
    (hcount : count = min 48 (max 1 (floorDiv (ofInt span) width + 1))) :
    span < count * width ∧ (count - 1) * width ≤ span ∧ 1 ≤ count ∧ count ≤ 13 ∧
      1000 ≤ width ∧ width ≤ 350000000000000 := by
  rw [ofInt_of_lt (by omega)] at hwidth hcount
  have hunits := Double.le_scale (a := max 1 span) (b := 12) (k := 49) (by decide) (by omega)
  rw [Double.ceilDiv_eq (by decide) (by omega)] at hwidth
  have hlong : span ≤ 12 * width := by omega
  have hfew : span / width ≤ 12 := Int.ediv_le_of_le_mul (by omega) hlong
  have hfine := Double.le_scale (a := span) (b := width) (k := 4) (by decide) (by omega)
  rw [Double.floorDiv_eq (by omega) (by omega)] at hcount
  have hnonneg : 0 ≤ span / width := Int.ediv_nonneg hspan (by omega)
  have heq : count = span / width + 1 := by omega
  refine ⟨?_, ?_, by omega, by omega, by omega, by omega⟩
  · rw [heq]
    exact Int.lt_ediv_add_one_mul_self span (by omega)
  · rw [heq, Int.add_sub_cancel]
    exact Int.ediv_mul_le span (by omega)

theorem natAbs_dateMs (dates : Dates) (text : String) : (dateMs dates text).natAbs ≤ maxTime := by
  unfold dateMs
  cases htime : dates.getTime text with
  | none => exact Nat.zero_le _
  | some time => exact dates.range htime

/-- A bucket that begins within the span of the times is built without rounding. -/
theorem buildBucket_ok (dates : Dates) (left right : List SessionSummary) {index : Nat}
    {begins : Int} (hbegins : start + index * width = begins) (hstart : start.natAbs ≤ maxTime)
    (hwidth : 0 ≤ width ∧ width ≤ 350000000000000)
    (hindex : 0 ≤ index * width ∧ index * width ≤ 4000000000000000) (hlast : begins ≤ maxTime) :
    buildBucket dates left right start width index = .ok ⟨dates.isoText begins, dates.isoText begins,
      inBucket dates left width begins, inBucket dates right width begins, 0⟩ := by
  unfold maxTime at hstart hlast
  have hoffset : ofInt (index * width) = index * width := ofInt_of_lt (by omega)
  have hbegin : ofInt begins = begins := ofInt_of_lt (by omega)
  have hend : ofInt (begins + width) = begins + width := ofInt_of_lt (by omega)
  have hdate : toISOString dates begins = .ok (dates.isoText begins) :=
    if_pos (by unfold maxTime; omega)
  simp only [buildBucket, hoffset, hbegins, hbegin, hdate, Fallible.ok_bind, countSessionsInBucket,
    hend, ← countP_eq_length_filter]
  rfl

namespace Sample

/-- Some dates and their texts. -/
def calendar : Dates where
  getTime
    | "-271821-04-20T00:00:00.001Z" => some (-8639999999999999)
    | "2026-01-01T00:00:00.000Z" => some 1767225600000
    | "2026-01-01T00:00:00.500Z" => some 1767225600500
    | "+275760-09-13T00:00:00.000Z" => some 8640000000000000
    | _ => none
  isoText
    | -8639999999999999 => "-271821-04-20T00:00:00.001Z"
    | 1767225600000 => "2026-01-01T00:00:00.000Z"
    | 1767225600500 => "2026-01-01T00:00:00.500Z"
    | _ => "+275760-09-13T00:00:00.000Z"
  range h := by split at h <;> cases h <;> decide

def early : SessionSummary := ⟨"2026-01-01T00:00:00.000Z"⟩

def late : SessionSummary := ⟨"2026-01-01T00:00:00.500Z"⟩

end Sample

end AiProxy.Compare
