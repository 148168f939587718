import AiProxy.Rules.Patterns
import Mathlib.Tactic.Ring

/-!
# Wildcard patterns: proofs

Between the pinned ends a scan decides whether the middle segments occur in their order
(`Scan.Decides`).
-/

namespace AiProxy.Rules

open Option List Str
open Wildcard (InOrder Expands segments)

def searchBound : Nat → Nat → Nat
  | 0, _ => 0
  | m + 1, n => (n + 1) ^ m

theorem searchBound_mono (m : Nat) {n n' : Nat} (h : n ≤ n') : searchBound m n ≤ searchBound m n' := by
  cases m with
  | zero => exact Nat.le_refl 0
  | succ m => exact Nat.pow_le_pow_left (Nat.succ_le_succ h) m

theorem searchBound_mono_left {m m' : Nat} (n : Nat) (h : m ≤ m') :
    searchBound m n ≤ searchBound m' n := by
  cases m with
  | zero => exact Nat.zero_le _
  | succ m =>
    obtain ⟨k, rfl⟩ := Nat.exists_eq_add_of_le' h
    exact Nat.pow_le_pow_right (Nat.succ_pos n) (Nat.le_add_left m k)

theorem searchBound_step (m n : Nat) :
    1 + searchBound (m + 1) n + n ^ (m + 1) ≤ searchBound (m + 1 + 1) (n + 1) := by
  have hlt : n ^ (m + 1) < (n + 1) ^ (m + 1) := Nat.pow_lt_pow_left (Nat.lt_succ_self n) (by omega)
  have hgrow : (n + 1) ^ m ≤ (n + 2) ^ m := Nat.pow_le_pow_left (by omega) m
  calc
    1 + (n + 1) ^ m + n ^ (m + 1) ≤ (n + 1) ^ m + (n + 1) ^ (m + 1) := by omega
    _ = (n + 1) ^ m * (n + 2) := by ring
    _ ≤ (n + 2) ^ m * (n + 2) := Nat.mul_le_mul_right _ hgrow
    _ = (n + 1 + 1) ^ (m + 1) := by ring

/-! ## The window -/

/-- The scan answers a question with few enough searches: at most one for each segment when there is a
match. -/
structure Scan.Answers (scan : Scan) (question : Prop) (parts length : Nat) : Prop where
  matched : scan.matched = true ↔ question
  searches : scan.searches ≤ searchBound parts length
  found : scan.matched = true → scan.searches ≤ parts

theorem Scan.Answers.mono {scan : Scan} {question question' : Prop} {m m' n n' : Nat}
    (h : scan.Answers question m n) (hq : question ↔ question') (hm : m ≤ m') (hn : n ≤ n') :
    scan.Answers question' m' n' where
  matched := h.matched.trans hq
  searches := h.searches.trans ((searchBound_mono m hn).trans (searchBound_mono_left n' hm))
  found hmatched := (h.found hmatched).trans hm

theorem Scan.answers_false {question : Prop} (h : ¬ question) (m n : Nat) :
    Scan.Answers ⟨false, 0⟩ question m n :=
  ⟨iff_of_false Bool.false_ne_true h, Nat.zero_le _, fun _ => Nat.zero_le _⟩

/-- The scan is right about the segments in a window. -/
abbrev Scan.Decides (scan : Scan) (middles : List (List Char)) (window : List Char) : Prop :=
  scan.Answers (InOrder middles window) middles.length window.length

theorem Scan.decides_nil (window : List Char) : Scan.Decides ⟨true, 0⟩ [] window :=
  ⟨iff_of_true rfl trivial, Nat.le_refl 0, fun _ => Nat.le_refl 0⟩

section Occurrences

variable {first : List Char} {rest : List (List Char)} {a b z : List Char} {inner later : Scan}

theorem searchBound_occurrence (m : Nat) (hfirst : first ≠ []) :
    1 + searchBound (m + 1) b.length + b.length ^ (m + 1)
      ≤ searchBound (m + 1 + 1) (a ++ (first ++ b)).length := by
  have hpos := length_pos_iff.mpr hfirst
  refine (searchBound_step m b.length).trans (searchBound_mono _ ?_)
  rw [length_append, length_append]
  omega

theorem Scan.decides_absent {window : List Char} (h : ¬ first <:+: window) :
    Scan.Decides ⟨false, 1⟩ (first :: rest) window := by
  refine ⟨iff_of_false Bool.false_ne_true (Wildcard.not_inOrder_of_not_infix h), ?_, fun hm => ?_⟩
  · exact Nat.one_le_pow _ _ (Nat.succ_pos _)
  · exact absurd hm Bool.false_ne_true

theorem Scan.Decides.inner_le (hinner : inner.Decides rest b) (hfirst : first ≠ []) :
    1 + inner.searches ≤ searchBound (rest.length + 1) (a ++ (first ++ b)).length := by
  have hle : inner.searches ≤ searchBound rest.length b.length := hinner.searches
  cases hrest : rest.length with
  | zero =>
    rw [hrest, searchBound] at hle
    rw [searchBound, Nat.pow_zero]
    omega
  | succ m =>
    have hstep := @searchBound_occurrence first a b m hfirst
    rw [hrest] at hle
    omega

theorem Scan.Decides.success (hinner : inner.Decides rest b) (hfirst : first ≠ [])
    (hm : inner.matched = true) :
    Scan.Decides ⟨true, 1 + inner.searches⟩ (first :: rest) (a ++ (first ++ b)) := by
  refine ⟨iff_of_true rfl ⟨a, b, rfl, hinner.matched.mp hm⟩, hinner.inner_le hfirst, fun _ => ?_⟩
  have := hinner.found hm
  show 1 + inner.searches ≤ rest.length + 1
  omega

variable (hleft : ∀ a' b', a ++ (first ++ b) = a' ++ (first ++ b') → a.length ≤ a'.length)

include hleft

theorem Scan.Decides.exhausted (hinner : inner.Decides rest b) (hfirst : first ≠ [])
    (hm : inner.matched = false) :
    Scan.Decides ⟨false, 1 + inner.searches⟩ (first :: rest) (a ++ (first ++ b)) := by
  refine ⟨iff_of_false Bool.false_ne_true ?_, hinner.inner_le hfirst, fun h => ?_⟩
  · rw [Wildcard.inOrder_cons_iff_of_leftmost hleft, ← hinner.matched, hm]
    exact Bool.false_ne_true
  · exact absurd h Bool.false_ne_true

theorem Scan.Decides.retry {c : Char} {b' : List Char} (hb : b = c :: b')
    (hinner : inner.Decides rest b) (hlater : later.Decides (first :: rest) b') (hfirst : first ≠ [])
    (hm : inner.matched = false) :
    Scan.Decides ⟨later.matched, 1 + inner.searches + later.searches⟩ (first :: rest)
      (a ++ (first ++ b)) := by
  have hrest : ¬ InOrder rest b := by
    rw [← hinner.matched, hm]
    exact Bool.false_ne_true
  have hnot : later.matched = false := by
    rw [Bool.eq_false_iff]
    intro h
    apply hrest
    rw [hb]
    exact (hlater.matched.mp h).tail.append_left [c]
  refine ⟨?_, ?_, fun h => absurd h (by rw [hnot]; exact Bool.false_ne_true)⟩
  · rw [Wildcard.inOrder_cons_iff_of_leftmost hleft]
    exact iff_of_false (by rw [hnot]; exact Bool.false_ne_true) hrest
  · -- without other segments the first occurrence is a match
    cases hlength : rest.length with
    | zero =>
      rw [length_eq_zero_iff] at hlength
      subst hlength
      exact absurd trivial hrest
    | succ m =>
      have hle : inner.searches ≤ searchBound (m + 1) b.length := hlength ▸ hinner.searches
      have hle' : later.searches ≤ searchBound (m + 1 + 1) b'.length := by
        have := hlater.searches
        rwa [length_cons, hlength] at this
      have hstep := @searchBound_occurrence first a b m hfirst
      have hpow : searchBound (m + 1 + 1) b'.length = b.length ^ (m + 1) := by
        rw [hb]
        rfl
      show 1 + inner.searches + later.searches ≤ searchBound ((first :: rest).length) _
      rw [length_cons, hlength]
      omega

end Occurrences

theorem tryOccurrences_decides {candidate first z : List Char} {rest : List (List Char)}
    {matchRest : Nat → Option Scan} {windowEnd : Nat} (hfirst : first ≠ [])
    (hrest : ∀ x w, candidate = x ++ (w ++ z) → windowEnd = len x + len w →
      ∃ scan, matchRest (len x) = some scan ∧ scan.Decides rest w)
    (fuel : Nat) (x w : List Char) (hfuel : w.length < fuel) (hcandidate : candidate = x ++ (w ++ z))
    (hend : windowEnd = len x + len w) :
    ∃ scan, tryOccurrences candidate first windowEnd matchRest fuel (len x) = some scan ∧
      scan.Decides (first :: rest) w := by
  -- by induction on the fuel: each attempt begins further right
  induction fuel generalizing x w with
  | zero => exact absurd hfuel (Nat.not_lt_zero _)
  | succ fuel ih =>
    have hwindow : slice candidate (len x) windowEnd = some w := by
      rw [hcandidate, hend]
      exact slice_append x w z
    rw [tryOccurrences, hwindow, bind_eq_bind, bind_some]
    cases hfind : find first w with
    | none => exact ⟨_, rfl, Scan.decides_absent (find_eq_none hfind)⟩
    | some relative =>
      obtain ⟨a, b, hw, rfl, hleft⟩ := find_eq_some hfind
      subst hw
      have hstop : len x + len a + len first = len (x ++ (a ++ first)) := by
        simp only [len_append]
        omega
      have hcandidate' : candidate = (x ++ (a ++ first)) ++ (b ++ z) := by
        rw [hcandidate]
        simp only [append_assoc]
      have hend' : windowEnd = len (x ++ (a ++ first)) + len b := by
        rw [hend]
        simp only [len_append]
        omega
      obtain ⟨inner, hinner, hdecides⟩ := hrest _ _ hcandidate' hend'
      simp only [hstop, hinner, bind_eq_bind, bind_some]
      by_cases hm : inner.matched = true
      · rw [if_pos hm]
        exact ⟨_, rfl, hdecides.success hfirst hm⟩
      · rw [if_neg hm]
        have hm' := Bool.eq_false_iff.mpr hm
        have hafter : slice candidate (len (x ++ (a ++ first))) windowEnd = some b := by
          rw [hcandidate', hend']
          exact slice_append _ b z
        rw [hafter]
        cases b with
        | nil => exact ⟨_, rfl, hdecides.exhausted hleft hfirst hm'⟩
        | cons c b' =>
          have hnext : len (x ++ (a ++ first)) + c.utf8Size = len (x ++ (a ++ (first ++ [c]))) := by
            simp [len_append]
            omega
          obtain ⟨later, hlater, hdecides'⟩ := ih (x ++ (a ++ (first ++ [c]))) b'
            (by
              simp only [length_append, length_cons] at hfuel
              omega)
            (by rw [hcandidate']; simp)
            (by rw [hend', len_cons]; omega)
          simp only [hnext, hlater, bind_some]
          exact ⟨_, rfl, hdecides.retry hleft rfl hdecides' hfirst hm'⟩

section

variable {middles : List (List Char)} (hmiddles : ∀ m ∈ middles, m ≠ [])

include hmiddles

theorem matchMiddles_decides {candidate z : List Char} {windowEnd : Nat}
    (x w : List Char) (hcandidate : candidate = x ++ (w ++ z))
    (hend : windowEnd = len x + len w) :
    ∃ scan, matchMiddles candidate windowEnd middles (len x) = some scan ∧ scan.Decides middles w := by
  induction middles generalizing x w with
  | nil => exact ⟨_, rfl, Scan.decides_nil w⟩
  | cons first rest ih =>
    have hfuel : w.length < len candidate + 1 := by
      have := length_le_len w
      rw [hcandidate, len_append, len_append]
      omega
    refine tryOccurrences_decides (hmiddles first mem_cons_self) ?_ _ x w hfuel hcandidate hend
    intro x' w' hcandidate' hend'
    by_cases hrest : rest = []
    · subst hrest
      exact ⟨_, if_pos rfl, Scan.decides_nil w'⟩
    · rw [if_neg hrest]
      exact ih (fun m hm => hmiddles m (mem_cons_of_mem _ hm)) x' w' hcandidate' hend'

theorem matchWindow_decides (x w z : List Char) :
    ∃ scan, matchWindow middles (x ++ (w ++ z)) (len x) (len x + len w) = some scan ∧
      scan.Decides middles w := by
  rw [matchWindow, if_neg (not_lt.mpr (Nat.le_add_right _ _))]
  exact matchMiddles_decides hmiddles x w rfl rfl

theorem matchTail_answers (tail : Option (List Char)) (x y : List Char) :
    ∃ scan, matchTail tail middles (x ++ y) (len x) = some scan ∧
      scan.Answers (∃ w, y = w ++ tail.getD [] ∧ InOrder middles w) middles.length y.length := by
  cases tail with
  | none =>
    obtain ⟨scan, hscan, hdecides⟩ := matchWindow_decides hmiddles x y []
    rw [append_nil, ← len_append] at hscan
    refine ⟨scan, hscan, hdecides.mono ?_ le_rfl le_rfl⟩
    simp
  | some tailPart =>
    have hslice : slice (x ++ y) (len x) (len (x ++ y)) = some y := by
      have := slice_append x y []
      rwa [append_nil, ← len_append] at this
    rw [matchTail, hslice]
    by_cases hsuffix : tailPart <:+ y
    · obtain ⟨w, rfl⟩ := hsuffix
      have hroom : ¬ len (x ++ (w ++ tailPart)) - len x < len tailPart := by
        simp only [len_append]
        omega
      have hend : len (x ++ (w ++ tailPart)) - len tailPart = len x + len w := by
        simp only [len_append]
        omega
      obtain ⟨scan, hscan, hdecides⟩ := matchWindow_decides hmiddles x w tailPart
      refine ⟨scan, ?_, hdecides.mono ?_ le_rfl ?_⟩
      · rw [if_neg hroom, bind_eq_bind, bind_some,
          if_pos (isSuffixOf_iff_suffix.mpr (suffix_append w tailPart)), hend, hscan]
      · simp
      · rw [length_append]
        omega
    · refine ⟨⟨false, 0⟩, ?_, Scan.answers_false ?_ _ _⟩
      · split
        · rfl
        · rw [bind_eq_bind, bind_some, if_neg (fun h => hsuffix (isSuffixOf_iff_suffix.mp h))]
      · rintro ⟨w, rfl, -⟩
        exact hsuffix (suffix_append w _)

theorem matchHead_answers (head tail : Option (List Char)) (candidate : List Char) :
    ∃ scan, matchHead head tail middles candidate = some scan ∧
      scan.Answers (∃ x, candidate = head.getD [] ++ (x ++ tail.getD []) ∧ InOrder middles x)
        middles.length candidate.length := by
  cases head with
  | none => exact matchTail_answers hmiddles tail [] candidate
  | some headPart =>
    rw [matchHead]
    by_cases hbegins : headPart <+: candidate
    · obtain ⟨y, rfl⟩ := hbegins
      obtain ⟨scan, hscan, hanswers⟩ := matchTail_answers hmiddles tail headPart y
      refine ⟨scan, ?_, hanswers.mono ?_ le_rfl ?_⟩
      · rw [if_pos (List.isPrefixOf_iff_prefix.mpr (prefix_append headPart y)), hscan]
      · simp
      · rw [length_append]
        omega
    · refine ⟨⟨false, 0⟩, ?_, Scan.answers_false ?_ _ _⟩
      · rw [if_neg (fun h => hbegins (List.isPrefixOf_iff_prefix.mp h))]
      · rintro ⟨w, rfl, -⟩
        exact hbegins (prefix_append _ _)

end

theorem isSome_find_iff (part candidate : List Char) :
    (find part candidate).isSome = true ↔ part <:+: candidate := by
  cases hfind : find part candidate with
  | none => exact iff_of_false Bool.false_ne_true (find_eq_none hfind)
  | some k =>
    obtain ⟨a, b, rfl, -⟩ := find_eq_some hfind
    exact iff_of_true rfl ⟨a, b, by simp⟩

/-- The segments of a pattern: those pinned to the ends and those between. -/
def pinnedParts (head tail : Option (List Char)) (middles : List (List Char)) : List (List Char) :=
  head.toList ++ (middles ++ tail.toList)

section Parts

variable (head tail : Option (List Char)) (middles : List (List Char))

theorem middles_pinnedParts : ((pinnedParts head tail middles).take
      ((pinnedParts head tail middles).length - tail.isSome.toNat)).drop head.isSome.toNat =
        middles := by
  cases head <;> cases tail <;> simp [pinnedParts]

theorem matchParts_of_many (candidate : List Char) (h : 2 ≤ (pinnedParts head tail middles).length) :
    matchParts head.isNone tail.isNone (pinnedParts head tail middles) candidate
      = matchHead head tail middles candidate := by
  have hhead : (if head.isNone then none else (pinnedParts head tail middles).head?) = head := by
    cases head <;> simp [pinnedParts]
  have htail : (if tail.isNone then none else (pinnedParts head tail middles).getLast?) = tail := by
    cases tail <;> simp [pinnedParts]
  have hmany : ∀ (l t : Bool) (parts : List (List Char)), 2 ≤ parts.length →
      matchParts l t parts candidate
        = matchHead (if l then none else parts.head?) (if t then none else parts.getLast?)
            ((parts.take
              (parts.length - (if t then none else parts.getLast?).isSome.toNat)).drop
                (if l then none else parts.head?).isSome.toNat) candidate := by
    intro l t parts hparts
    match parts, hparts with
    | _ :: _ :: _, _ => rfl
  rw [hmany _ _ _ h, hhead, htail, middles_pinnedParts]

theorem matchParts_answers (hmiddles : ∀ m ∈ middles, m ≠ []) (candidate : List Char) : ∃ scan,
      matchParts head.isNone tail.isNone (pinnedParts head tail middles) candidate = some scan ∧
      scan.Answers (∃ x, candidate = head.getD [] ++ (x ++ tail.getD []) ∧ InOrder middles x)
        (pinnedParts head tail middles).length candidate.length := by
  by_cases hmany : 2 ≤ (pinnedParts head tail middles).length
  · obtain ⟨scan, hscan, hanswers⟩ := matchHead_answers hmiddles head tail candidate
    rw [matchParts_of_many head tail middles candidate hmany]
    refine ⟨scan, hscan, hanswers.mono Iff.rfl ?_ le_rfl⟩
    rw [pinnedParts, length_append, length_append]
    omega
  -- at most one segment: it is the head, the tail or a middle
  · match head, tail, middles, hmany with
    | none, none, [], _ =>
      exact ⟨_, rfl, ⟨by simp [InOrder], Nat.zero_le _, fun _ => Nat.zero_le _⟩⟩
    | some part, none, [], _ =>
      refine ⟨_, rfl, ⟨?_, Nat.zero_le _, fun _ => Nat.zero_le _⟩⟩
      rw [List.isPrefixOf_iff_prefix]
      simp [InOrder, List.IsPrefix, eq_comm]
    | none, some part, [], _ =>
      refine ⟨_, rfl, ⟨?_, Nat.zero_le _, fun _ => Nat.zero_le _⟩⟩
      rw [isSuffixOf_iff_suffix]
      simp [InOrder, List.IsSuffix, eq_comm]
    | none, none, [part], _ =>
      refine ⟨_, rfl, ⟨?_, Nat.le_refl 1, fun _ => Nat.le_refl 1⟩⟩
      rw [isSome_find_iff]
      simp [InOrder, List.IsInfix, eq_comm]
    | some _, some _, _, hmany | some _, none, _ :: _, hmany | none, some _, _ :: _, hmany
    | none, none, _ :: _ :: _, hmany => simp [pinnedParts] at hmany

end Parts

/-- An empty segment is pinned nowhere. -/
def pinned (segment : List Char) : Option (List Char) := if segment = [] then none else some segment

theorem getD_pinned (segment : List Char) : (pinned segment).getD [] = segment := by
  rw [pinned]
  split
  · next h => exact h.symm
  · rfl

theorem isNone_pinned (segment : List Char) : (pinned segment).isNone = decide (segment = []) := by
  rw [pinned]
  split <;> simp_all

theorem toList_pinned (segment : List Char) : (pinned segment).toList = [segment].filter (· ≠ []) := by
  rw [pinned]
  split <;> simp_all

theorem patternParts_eq {p s l : List Char} {ms : List (List Char)}
    (h : segments '*' p = s :: (ms ++ [l])) :
    patternParts p = pinnedParts (pinned s) (pinned l) (ms.filter (· ≠ [])) := by
  rw [patternParts, h, pinnedParts, toList_pinned, toList_pinned, ← filter_append, ← filter_append]
  rfl

theorem wildcardScan_answers (p c : List Char) : ∃ scan, wildcardScan p c = some scan ∧
      scan.Answers (p = [] ∨ Expands '*' p c) (patternParts p).length c.length := by
  by_cases hnil : p = []
  · subst hnil
    exact ⟨⟨true, 0⟩, rfl, ⟨iff_of_true rfl (.inl rfl), Nat.zero_le _, fun _ => Nat.zero_le _⟩⟩
  by_cases hstar : p = ['*']
  · subst hstar
    refine ⟨⟨true, 0⟩, rfl, ⟨iff_of_true rfl (.inr ?_), Nat.zero_le _, fun _ => Nat.zero_le _⟩⟩
    exact ⟨c, [], (append_nil c).symm, rfl⟩
  have hscan : wildcardScan p c = matchParts (p.head? = some '*') (p.getLast? = some '*')
      (patternParts p) c := by
    rw [wildcardScan, if_neg (not_or.mpr ⟨hnil, hstar⟩)]
  obtain ⟨s, rest, hsegments⟩ := exists_cons_of_ne_nil (Wildcard.segments_ne_nil '*' p)
  have hleading : p.head? = some '*' ↔ s = [] := by
    rw [← Wildcard.segments_head?_eq_nil_iff '*' hnil, hsegments, head?_cons, some_inj]
  have htrailing := Wildcard.segments_getLast?_eq_nil_iff '*' hnil
  rcases eq_nil_or_concat' rest with rfl | ⟨ms, l, rfl⟩
  · -- no wildcard: the pattern is its only segment
    have hs := Wildcard.ne_nil_of_segments_single '*' hnil hsegments
    have hparts : patternParts p = [s] := by
      rw [patternParts, hsegments, filter_cons_of_pos (by simpa using hs), filter_nil]
    rw [hsegments, getLast?_singleton, some_inj] at htrailing
    rw [hscan, hparts, decide_eq_false (hleading.not.mpr hs), decide_eq_false (htrailing.not.mp hs)]
    refine ⟨⟨c = s, 0⟩, rfl, ⟨?_, Nat.zero_le _, fun _ => Nat.zero_le _⟩⟩
    rw [Wildcard.expands_iff_of_single '*' hsegments, decide_eq_true_iff, or_iff_right hnil]
  · have hparts := patternParts_eq hsegments
    have hlast : (s :: (ms ++ [l])).getLast? = some l := by
      rw [← cons_append, getLast?_concat]
    rw [hsegments, hlast, some_inj] at htrailing
    obtain ⟨scan, hmatch, hanswers⟩ := matchParts_answers (pinned s) (pinned l)
      (ms.filter (· ≠ [])) (fun m hm => of_decide_eq_true (mem_filter.mp hm).2) c
    rw [isNone_pinned, isNone_pinned, ← hparts] at hmatch
    rw [getD_pinned, getD_pinned, ← hparts] at hanswers
    refine ⟨scan, ?_, hanswers.mono ?_ le_rfl le_rfl⟩
    · rw [hscan, decide_eq_decide.mpr hleading, ← decide_eq_decide.mpr htrailing, hmatch]
    · rw [Wildcard.expands_iff '*' hsegments, or_iff_right hnil]
      simp only [Wildcard.inOrder_filter_ne_nil]

/-- The matcher decides whether the candidate is the pattern with its wildcards replaced. A pattern
that is empty matches everything. No slice cuts a character. -/
theorem wildcard_matches_iff_expands (p c : List Char) :
    ∃ answer, wildcardMatches p c = some answer ∧ (answer = true ↔ p = [] ∨ Expands '*' p c) := by
  obtain ⟨scan, hscan, hanswers⟩ := wildcardScan_answers p c
  exact ⟨scan.matched, by rw [wildcardMatches, hscan]; rfl, hanswers.matched⟩

/-- With three segments and a last one that does not occur, each choice of occurrences is tried. -/
theorem linear_search_bound_exceeded :
    ∃ scan, wildcardScan "*a*a*a*b*".toList "aaaaaaaaa".toList = some scan ∧
      (patternParts "*a*a*a*b*".toList).length = 4 ∧ "aaaaaaaaa".toList.length = 9 ∧
      ¬ scan.searches ≤ (4 + 1) * (9 + 1) := by
  refine ⟨⟨false, 60⟩, ?_, ?_, ?_, ?_⟩ <;> decide

/-- The searches of a match are bounded by a power of the length, with one factor less than there are
segments. A match that succeeds makes at most one search for each segment, and with at most two segments
the searches are linear. -/
theorem wildcard_searches_le (p c : List Char) :
    ∃ scan, wildcardScan p c = some scan ∧
      scan.searches ≤ (c.length + 1) ^ ((patternParts p).length - 1) ∧
      (scan.matched = true → scan.searches ≤ (patternParts p).length) ∧
      ((patternParts p).length ≤ 2 →
        scan.searches ≤ ((patternParts p).length + 1) * (c.length + 1)) := by
  obtain ⟨scan, hscan, hanswers⟩ := wildcardScan_answers p c
  have hle := hanswers.searches
  refine ⟨scan, hscan, ?_, hanswers.found, fun htwo => ?_⟩
  · cases hparts : (patternParts p).length with
    | zero =>
      rw [hparts, searchBound] at hle
      omega
    | succ m => rwa [hparts, searchBound] at hle
  · match (patternParts p).length, htwo, hle with
    | 0, _, hle =>
      rw [searchBound] at hle
      omega
    | 1, _, hle =>
      rw [searchBound, Nat.pow_zero] at hle
      omega
    | 2, _, hle =>
      rw [searchBound, Nat.pow_one] at hle
      omega

end AiProxy.Rules
