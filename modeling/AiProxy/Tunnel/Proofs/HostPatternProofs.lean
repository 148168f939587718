import AiProxy.Tunnel.HostPattern
import Mathlib.Data.List.TakeWhile

/-!
# What host patterns match

The mask of a prefix has ones in its first bits only, so equal masked addresses are addresses that agree
there.
-/

namespace AiProxy.Tunnel

open List

variable {w n : Nat} {host pattern : List Char} {parseIp : List Char → Option IpAddr}

theorem masked_eq_iff (a b : BitVec w) (hn : n ≤ w) :
    a &&& BitVec.allOnes w <<< (w - n) = b &&& BitVec.allOnes w <<< (w - n) ↔
      ∀ i < n, a.getMsbD i = b.getMsbD i := by
  have hmask : ∀ i, (BitVec.allOnes w <<< (w - n)).getMsbD i = decide (i < n) := by
    intro i
    rw [BitVec.getMsbD_shiftLeft, BitVec.getMsbD_allOnes]
    exact decide_eq_decide.mpr (by omega)
  constructor
  · intro h i hi
    have hbit := congrArg (fun x => x.getMsbD i) h
    simpa [BitVec.getMsbD_and, hmask, hi] using hbit
  · intro h
    refine BitVec.eq_of_getMsbD_eq fun i _ => ?_
    rw [BitVec.getMsbD_and, BitVec.getMsbD_and, hmask]
    by_cases hi : i < n
    · rw [h i hi]
    · rw [decide_eq_false hi, Bool.and_false, Bool.and_false]

theorem inPrefix_eq (a b : BitVec w) (n : Nat) :
    ∃ x, inPrefix a b n = some x ∧ (x = true ↔ n ≤ w ∧ ∀ i < n, a.getMsbD i = b.getMsbD i) := by
  rw [inPrefix]
  split
  · exact ⟨false, rfl, by simp; omega⟩
  · next hle =>
    rw [not_lt] at hle
    by_cases hn : n = 0
    · subst hn
      exact ⟨true, by simp, by simp⟩
    · refine ⟨_, by rw [if_neg hn, checkedShl, if_pos (by omega)]; rfl, ?_⟩
      rw [decide_eq_true_iff, masked_eq_iff a b hle]
      exact ⟨fun h => ⟨hle, h⟩, And.right⟩

theorem ipInCidr_eq (ip network : IpAddr) (n : Nat) :
    ∃ x, ipInCidr ip network n = some x ∧ (x = true ↔ ip.AgreeOn n network) := by
  cases ip <;> cases network
  case v4.v4 a b | v6.v6 a b => exact inPrefix_eq a b n
  all_goals exact ⟨false, rfl, by simp [IpAddr.AgreeOn]⟩

theorem split_slash {t : List Char} (h : '/' ∈ t) :
    t.takeWhile (· ≠ '/') ++ '/' :: (t.dropWhile (· ≠ '/')).tail = t := by
  induction t with
  | nil => cases h
  | cons c t ih =>
    by_cases hc : c = '/'
    · subst hc
      rfl
    · have ht : '/' ∈ t := (mem_cons.mp h).resolve_left (Ne.symm hc)
      rw [takeWhile_cons_of_pos (by simpa using hc), dropWhile_cons_of_pos
        (by simpa using hc), cons_append, ih ht]

theorem slash_notMem_takeWhile (t : List Char) : '/' ∉ t.takeWhile (· ≠ '/') := by
  intro h
  simpa using mem_takeWhile_imp h

theorem split_slash_unique {a b : List Char} (h : '/' ∉ a) :
    (a ++ '/' :: b).takeWhile (· ≠ '/') = a ∧ ((a ++ '/' :: b).dropWhile (· ≠ '/')).tail = b := by
  have ha : ∀ c ∈ a, decide (c ≠ '/') = true := by
    intro c hc
    exact decide_eq_true fun heq => h (heq ▸ hc)
  rw [takeWhile_append_of_pos ha, dropWhile_append_of_pos ha]
  simp

theorem inBlock_iff (h : '/' ∈ pattern) : InBlock parseIp host pattern ↔
    ∃ net n ip, parseIp (pattern.takeWhile (· ≠ '/')) = some net ∧
      parseU8 (pattern.dropWhile (· ≠ '/')).tail = some n ∧ parseIp host = some ip ∧
      ip.AgreeOn n net := by
  constructor
  · rintro ⟨network, length, net, n, ip, rfl, hnot, hnet, hn, hip, hagree⟩
    obtain ⟨hfirst, hrest⟩ := split_slash_unique (b := length) hnot
    exact ⟨net, n, ip, by rw [hfirst, hnet], by rw [hrest, hn], hip, hagree⟩
  · rintro ⟨net, n, ip, hnet, hn, hip, hagree⟩
    exact ⟨_, _, net, n, ip, (split_slash h).symm, slash_notMem_takeWhile pattern, hnet, hn, hip,
      hagree⟩

theorem domainSuffix_eq_some {suffix : List Char} : domainSuffix pattern = some suffix ↔
      pattern = '*' :: '.' :: suffix ∨ pattern = '.' :: suffix := by
  unfold domainSuffix
  split <;> simp_all

theorem names_iff : Names host pattern ↔ match domainSuffix pattern with
    | some suffix => host = suffix ∨ '.' :: suffix <:+ host
    | none => host = pattern := by
  cases hsuffix : domainSuffix pattern with
  | none =>
    constructor
    · rintro (rfl | ⟨suffix, hform, -⟩)
      · rfl
      · rw [domainSuffix_eq_some.mpr hform] at hsuffix
        cases hsuffix
    · exact fun h => .inl h.symm
  | some suffix =>
    have hform := domainSuffix_eq_some.mp hsuffix
    constructor
    · rintro (rfl | ⟨other, hother, hends⟩)
      · rcases hform with rfl | rfl
        · exact .inr (suffix_cons '*' _)
        · exact .inr (suffix_refl _)
      · rw [domainSuffix_eq_some.mpr hother] at hsuffix
        cases hsuffix
        exact hends
    · exact fun h => .inr ⟨suffix, hform, h⟩

theorem matchesPattern_eq (hhost : host ≠ []) : ∃ x, matchesPattern parseIp host pattern = some x ∧
      (x = true ↔ HostMatches parseIp host pattern) := by
  unfold matchesPattern HostMatches
  dsimp only
  split
  · next hempty =>
    subst hempty
    refine ⟨false, rfl, ?_⟩
    simp [Names, hhost.symm]
    rintro ⟨_, _, _, _, _, h, -⟩
    simp at h
  split
  · exact ⟨true, rfl, by simp_all⟩
  next hstar =>
  split
  · next hslash =>
    simp only [hstar, hslash, not_true_eq_false, false_and, false_or, inBlock_iff hslash]
    cases hip : parseIp host with
    | none => exact ⟨false, rfl, by simp⟩
    | some ip =>
      cases hnet : parseIp ((pattern.map Char.toLower).takeWhile (· ≠ '/')) with
      | none => exact ⟨false, rfl, by simp⟩
      | some net =>
        cases hn : parseU8 ((pattern.map Char.toLower).dropWhile (· ≠ '/')).tail with
        | none => exact ⟨false, rfl, by simp⟩
        | some n => simpa using ipInCidr_eq ip net n
  · next hslash =>
    have hblock : ¬ InBlock parseIp host (pattern.map Char.toLower) := by
      rintro ⟨_, _, _, _, _, h, -⟩
      rw [h] at hslash
      simp at hslash
    simp only [hstar, hslash, hblock, not_false_eq_true, true_and, false_or, or_false, names_iff]
    cases domainSuffix (pattern.map Char.toLower) <;> simp

theorem anyM_eq {α : Type} {p : α → Option Bool} {P : α → Prop} (l : List α)
    (h : ∀ a, ∃ x, p a = some x ∧ (x = true ↔ P a)) :
    ∃ x, l.anyM p = some x ∧ (x = true ↔ ∃ a ∈ l, P a) := by
  induction l with
  | nil => exact ⟨false, rfl, by simp⟩
  | cons a l ih =>
    obtain ⟨x, hx, hP⟩ := h a
    rw [List.anyM, hx]
    cases x with
    | true => exact ⟨true, rfl, by simpa using .inl (hP.mp rfl)⟩
    | false =>
      obtain ⟨y, hy, hrest⟩ := ih
      exact ⟨y, hy, by simp [hrest, ← hP]⟩

/-- A host that is not empty is matched by some pattern, in the meaning of patterns, or by none; no
shift overflows. -/
theorem matches_any_iff (parseIp : List Char → Option IpAddr) (patterns : List String)
    (host : String) :
    ∃ x, matchesAny parseIp patterns host = some x ∧
      (x = true ↔ normalizeHostToken host ≠ [] ∧ ∃ pattern ∈ patterns,
        HostMatches parseIp ((normalizeHostToken host).map Char.toLower)
          (normalizeHostToken pattern)) := by
  rw [matchesAny]
  by_cases hhost : normalizeHostToken host = []
  · exact ⟨false, by simp [hhost], by simp [hhost]⟩
  · simp only [hhost, if_false, ne_eq, not_false_eq_true, true_and]
    exact anyM_eq patterns fun pattern => matchesPattern_eq (by simpa using hhost)

/-- Nothing matches an empty host, and a pattern with a slash does not match as a name. -/
theorem empty_host_unmatched :
    matchesAny (fun _ => none) ["*"] "" = some false ∧ normalizeHostToken "*" = ['*'] ∧
      matchesAny (fun _ => none) ["a/b"] "a/b" = some false := by
  decide

end AiProxy.Tunnel
