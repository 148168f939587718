import AiProxy.Mcp.Proofs.ByteOffsetProofs

/-!
# The hits of a query

The hits in a text are found from the left, and where a hit ends, or between two hits, the search may as
well start anew.
-/

namespace AiProxy.Mcp

open List

/-- The text starts with characters that fit, one by one. -/
def startsLike : List (Char → Bool) → Text → Bool
  | [], _ => true
  | _ :: _, [] => false
  | f :: fs, c :: cs => f c && startsLike fs cs

theorem length_le_of_startsLike : ∀ {q : List (Char → Bool)} {t : Text}, startsLike q t = true →
    q.length ≤ t.length
  | [], _, _ => Nat.zero_le _
  | _ :: _, [], h => by cases h
  | f :: fs, c :: cs, h => by
    rw [startsLike, Bool.and_eq_true] at h
    exact Nat.succ_le_succ (length_le_of_startsLike h.2)

theorem startsLike_append : ∀ {q : List (Char → Bool)} {t : Text} (z : Text),
    q.length ≤ t.length → startsLike q (t ++ z) = startsLike q t
  | [], _, _, _ => by
    unfold startsLike
    rfl
  | _ :: _, [], _, h => absurd h (Nat.not_succ_le_zero _)
  | f :: fs, c :: cs, z, h => by
    rw [cons_append, startsLike, startsLike, startsLike_append z (Nat.le_of_succ_le_succ h)]

theorem run_all_char : ∀ (q : List (Char → Bool)) (c : Regex.Cursor),
    (startsLike q c.rest = true → ∃ d, (Regex.all (q.map .char)).run c = [d] ∧
      d.pos = c.pos + q.length ∧ d.groups = c.groups) ∧
    (startsLike q c.rest = false → (Regex.all (q.map .char)).run c = []) := by
  intro q
  induction q with
  | nil =>
    intro c
    refine ⟨fun _ => ⟨c, rfl, rfl, rfl⟩, fun h => ?_⟩
    cases h
  | cons f q ih =>
    rintro ⟨prev, rest, pos, groups⟩
    have hrun : ∀ rest, (Regex.all ((f :: q).map .char)).run ⟨prev, rest, pos, groups⟩ =
        ((Regex.char f).run ⟨prev, rest, pos, groups⟩).flatMap (Regex.all (q.map .char)).run :=
      fun _ => rfl
    cases rest with
    | nil => exact ⟨fun h => absurd h Bool.false_ne_true, fun _ => rfl⟩
    | cons x xs =>
      obtain ⟨hyes, hno⟩ := ih (Regex.Cursor.next ⟨prev, x :: xs, pos, groups⟩ x xs)
      rw [hrun, Regex.run, startsLike]
      dsimp only
      by_cases hf : f x = true
      · rw [if_pos hf, hf, flatMap_singleton]
        refine ⟨fun h => ?_, hno⟩
        obtain ⟨d, hd, hpos, hgroups⟩ := hyes h
        refine ⟨d, hd, ?_, hgroups⟩
        rw [hpos]
        show pos + 1 + q.length = pos + (q.length + 1)
        omega
      · rw [Bool.eq_false_iff.mpr hf]
        exact ⟨fun h => absurd h Bool.false_ne_true, fun _ => rfl⟩

theorem pattern_all_char (q : List (Char → Bool)) (prev : Option Char) (t : Text) :
    (Regex.all (q.map .char)).pattern prev t =
      if startsLike q t then some ⟨q.length, []⟩ else none := by
  obtain ⟨hyes, hno⟩ := run_all_char q (.start prev t)
  rw [Regex.pattern]
  by_cases h : startsLike q t = true
  · obtain ⟨d, hd, hpos, hgroups⟩ := hyes h
    rw [if_pos h, hd]
    have hlen : d.pos = q.length := by
      rw [hpos]
      exact zero_add _
    show some (Hit.mk d.pos d.groups) = _
    rw [hlen, hgroups]
    rfl
  · rw [if_neg h, hno (Bool.eq_false_iff.mpr h)]
    rfl

/-! ## Hits -/

/-- The hits from an offset on; the next `skip` characters belong to the hit found last. -/
def hitsFrom (q : List (Char → Bool)) : Nat → Nat → Text → List Found
  | _, _, [] => []
  | offset, k + 1, x :: xs => hitsFrom q (offset + byteLen [x]) k xs
  | offset, 0, x :: xs =>
    if startsLike q (x :: xs) then
      ⟨offset, offset + byteLen ((x :: xs).take q.length), (x :: xs).take q.length⟩ ::
        hitsFrom q (offset + byteLen [x]) (q.length - 1) xs
    else hitsFrom q (offset + byteLen [x]) 0 xs

def hits (q : List (Char → Bool)) (offset : Nat) (t : Text) : List Found := hitsFrom q offset 0 t

variable {q : List (Char → Bool)}

theorem hitsFrom_skip : ∀ (t : Text) (offset k : Nat),
    hitsFrom q offset k t = hits q (offset + byteLen (t.take k)) (t.drop k) := by
  intro t
  induction t with
  | nil =>
    intro offset k
    rw [hits, drop_nil, hitsFrom, hitsFrom]
  | cons x xs ih =>
    intro offset k
    cases k with
    | zero =>
      rw [take_zero, drop_zero, byteLen_nil, add_zero, hits]
    | succ k =>
      rw [hitsFrom, ih, take_succ_cons, drop_succ_cons, byteLen_cons x (xs.take k), add_assoc]

theorem hits_nil (offset : Nat) : hits q offset [] = [] := by
  rw [hits, hitsFrom]

theorem hits_miss {c : Char} {t : Text} (offset : Nat) (h : startsLike q (c :: t) = false) :
    hits q offset (c :: t) = hits q (offset + byteLen [c]) t := by
  rw [hits, hitsFrom, if_neg (by simp [h]), hits]

section Query

variable (hq : q ≠ [])

include hq

theorem hits_match {w t : Text} (offset : Nat) (hw : w.length = q.length)
    (h : startsLike q (w ++ t) = true) :
    hits q offset (w ++ t) = ⟨offset, offset + byteLen w, w⟩ :: hits q (offset + byteLen w) t := by
  have hlen : 0 < q.length := length_pos_iff.mpr hq
  cases w with
  | nil => exact absurd hw (by simp; omega)
  | cons x w =>
    have hlen' : q.length - 1 = w.length := by
      rw [length_cons] at hw
      omega
    rw [cons_append] at h ⊢
    rw [hits, hitsFrom, if_pos h, hitsFrom_skip, hlen', take_left, drop_left, ← hw,
      ← cons_append, take_left, byteLen_cons x w, add_assoc]

/-- The rule for facts about the hits: the text ends, starts with a hit, or starts with a character
at which there is none. -/
theorem hits_induction {P : Nat → Text → List Found → Prop} (hnil : ∀ offset, P offset [] [])
    (hmatch : ∀ offset w t, w.length = q.length → startsLike q (w ++ t) = true →
      P (offset + byteLen w) t (hits q (offset + byteLen w) t) →
      P offset (w ++ t) (⟨offset, offset + byteLen w, w⟩ :: hits q (offset + byteLen w) t))
    (hmiss : ∀ offset c t, startsLike q (c :: t) = false →
      P (offset + byteLen [c]) t (hits q (offset + byteLen [c]) t) →
      P offset (c :: t) (hits q (offset + byteLen [c]) t)) :
    ∀ (t : Text) (offset : Nat), P offset t (hits q offset t) := by
  have hpos : 0 < q.length := length_pos_iff.mpr hq
  intro t
  induction hlen : t.length using Nat.strong_induction_on generalizing t with
  | _ n ih =>
    intro offset
    cases t with
    | nil =>
      exact hnil offset
    | cons c t =>
      cases hstarts : startsLike q (c :: t) with
      | true =>
        have hle := length_le_of_startsLike hstarts
        have hw : ((c :: t).take q.length).length = q.length := length_take_of_le hle
        have hsplit := take_append_drop q.length (c :: t)
        have hrest := ih _ (by rw [length_drop]; omega) ((c :: t).drop q.length) rfl
        rw [← hsplit] at hstarts ⊢
        rw [hits_match hq offset hw hstarts]
        exact hmatch offset _ _ hw hstarts (hrest _)
      | false =>
        rw [hits_miss offset hstarts]
        exact hmiss offset c t hstarts (ih t.length (by rw [← hlen]; simp) t rfl _)

theorem mem_hits {t : Text} {offset : Nat} {f : Found} (h : f ∈ hits q offset t) :
    offset ≤ f.start ∧ f.start < f.stop ∧ f.stop ≤ offset + byteLen t ∧
      ∃ a b, t = a ++ b ∧ f.stop = offset + byteLen a := by
  have hpos : 0 < q.length := length_pos_iff.mpr hq
  revert h f
  refine hits_induction hq (P := fun offset t fs => ∀ {f}, f ∈ fs → offset ≤ f.start ∧
    f.start < f.stop ∧ f.stop ≤ offset + byteLen t ∧
      ∃ a b, t = a ++ b ∧ f.stop = offset + byteLen a) ?_ ?_ ?_ t offset
  · exact fun _ _ h => absurd h not_mem_nil
  · intro offset w t hw _ ih f hf
    have hlen := length_le_byteLen w
    rcases mem_cons.mp hf with rfl | hf
    · refine ⟨le_rfl, ?_, ?_, w, t, rfl, rfl⟩
      · show offset < offset + byteLen w
        omega
      · rw [byteLen_append]
        show offset + byteLen w ≤ _
        omega
    · obtain ⟨h1, h2, h3, a, b, rfl, h4⟩ := ih hf
      refine ⟨by omega, h2, ?_, w ++ a, b, (append_assoc _ _ _).symm, ?_⟩
      · rw [byteLen_append]
        omega
      · rw [byteLen_append]
        omega
  · intro offset c t _ ih f hf
    have hcons := byteLen_cons c t
    obtain ⟨h1, h2, h3, a, b, rfl, h4⟩ := ih hf
    refine ⟨by omega, h2, by omega, c :: a, b, rfl, ?_⟩
    rw [byteLen_cons]
    omega

theorem pairwise_hits (t : Text) (offset : Nat) :
    (hits q offset t).Pairwise fun f g => f.stop ≤ g.start := by
  refine hits_induction hq (P := fun _ _ fs => fs.Pairwise fun f g => f.stop ≤ g.start)
    (fun _ => .nil) ?_ ?_ t offset
  · intro offset w t _ _ ih
    exact .cons (fun g hg => (mem_hits hq hg).1) ih
  · exact fun _ _ _ _ ih => ih

def Found.shift (n : Nat) (f : Found) : Found := ⟨n + f.start, n + f.stop, f.text⟩

theorem hits_shift (n : Nat) (t : Text) (offset : Nat) :
    hits q (n + offset) t = (hits q offset t).map (Found.shift n) := by
  refine hits_induction hq
    (P := fun offset t fs => hits q (n + offset) t = fs.map (Found.shift n)) ?_ ?_ ?_ t offset
  · exact fun _ => hits_nil _
  · intro offset w t hw h ih
    rw [hits_match hq _ hw h, add_assoc, ih]
    rfl
  · intro offset c t h ih
    rw [hits_miss _ h, add_assoc, ih]

theorem hits_restart (a b : Text) (offset : Nat) {fs gs : List Found}
    (h : hits q offset (a ++ b) = fs ++ gs) (hfs : ∀ f ∈ fs, f.stop ≤ offset + byteLen a)
    (hgs : ∀ g ∈ gs, offset + byteLen a ≤ g.start) : gs = hits q (offset + byteLen a) b := by
  -- A boundary at the start has all hits behind it.
  have hstart : ∀ {offset fs}, hits q offset b = fs ++ gs → (∀ f ∈ fs, f.stop ≤ offset) →
      gs = hits q offset b := by
    intro offset fs h hfs
    have hnil : fs = [] := by
      refine eq_nil_iff_forall_not_mem.mpr fun f hf => ?_
      have := mem_hits hq (h ▸ mem_append_left gs hf)
      have := hfs f hf
      omega
    rw [h, hnil, nil_append]
  refine hits_induction hq (P := fun offset t found => ∀ a fs, t = a ++ b → found = fs ++ gs →
    (∀ f ∈ fs, f.stop ≤ offset + byteLen a) → (∀ g ∈ gs, offset + byteLen a ≤ g.start) →
      gs = hits q (offset + byteLen a) b) ?_ ?_ ?_ (a ++ b) offset a fs rfl h hfs hgs
  · intro offset a fs ht hfound _ _
    rw [(append_eq_nil_iff.mp ht.symm).2, hits_nil]
    exact (append_eq_nil_iff.mp hfound.symm).2
  · intro offset w t hw hstarts ih a fs ht hfound hfs hgs
    cases fs with
    | nil =>
      rw [nil_append] at hfound
      have hfirst := hgs _ (hfound ▸ mem_cons_self)
      have ha : a = [] := eq_nil_of_byteLen (by dsimp only at hfirst; omega)
      subst ha
      rw [← hfound, ← hits_match hq offset hw hstarts, ht]
      rfl
    | cons f fs =>
      obtain ⟨rfl, hrest⟩ := List.cons.inj hfound
      obtain ⟨a', rfl, ht'⟩ :=
        split_of_byteLen_le ht (Nat.le_of_add_le_add_left (hfs _ mem_cons_self))
      rw [byteLen_append, ← add_assoc] at hfs hgs ⊢
      exact ih a' fs ht' hrest (fun f hf => hfs f (mem_cons_of_mem _ hf)) hgs
  · intro offset c t hmiss ih a fs ht hfound hfs hgs
    cases a with
    | nil =>
      rw [← hits_miss offset hmiss, ht] at hfound
      exact hstart hfound hfs
    | cons x a =>
      obtain ⟨rfl, htail⟩ := List.cons.inj ht
      rw [byteLen_cons, ← add_assoc] at hfs hgs ⊢
      exact ih a fs htail hfound hfs hgs

theorem takeWhile_hits (v z : Text) (offset safe : Nat)
    (hroom : z = [] ∨ safe + 4 * q.length ≤ offset + byteLen v) :
    (hits q offset v).takeWhile (fun f => f.start < safe) =
      (hits q offset (v ++ z)).takeWhile fun f => f.start < safe := by
  rcases hroom with rfl | hroom
  · rw [append_nil]
  have hlate : ∀ {t : Text} {offset : Nat}, safe ≤ offset →
      (hits q offset t).takeWhile (fun f => decide (f.start < safe)) = [] := by
    intro t offset hle
    cases hfs : hits q offset t with
    | nil => rfl
    | cons f fs =>
      have := (mem_hits hq (hfs ▸ mem_cons_self)).1
      rw [takeWhile_cons_of_neg (by simp; omega)]
  -- Before `safe` there is room for a hit, so the part and the text have the same start.
  have hsame : ∀ {t : Text} {offset : Nat}, offset < safe → safe + 4 * q.length ≤ offset + byteLen t →
      startsLike q (t ++ z) = startsLike q t := by
    intro t offset hlt hroom
    have := byteLen_le t
    exact startsLike_append z (by omega)
  refine hits_induction hq (P := fun offset t fs => safe + 4 * q.length ≤ offset + byteLen t →
    fs.takeWhile (fun f => f.start < safe) =
      (hits q offset (t ++ z)).takeWhile fun f => f.start < safe) ?_ ?_ ?_ v offset hroom
  · intro offset hroom
    rw [byteLen_nil] at hroom
    rw [hlate (by omega)]
    rfl
  · intro offset w t hw hstarts ih hroom
    by_cases hsafe : safe ≤ offset
    · rw [← hits_match hq offset hw hstarts, hlate hsafe, hlate hsafe]
    · have hstarts' := (hsame (not_le.mp hsafe) hroom).trans hstarts
      rw [append_assoc] at hstarts' ⊢
      rw [byteLen_append, ← add_assoc] at hroom
      rw [hits_match hq offset hw hstarts', takeWhile_cons, takeWhile_cons, ih hroom]
  · intro offset c t hmiss ih hroom
    by_cases hsafe : safe ≤ offset
    · rw [← hits_miss offset hmiss, hlate hsafe, hlate hsafe]
    · have hmiss' := (hsame (not_le.mp hsafe) hroom).trans hmiss
      rw [byteLen_cons, ← add_assoc] at hroom
      rw [cons_append] at hmiss' ⊢
      rw [hits_miss offset hmiss', ih hroom]

theorem foundIn_scan {m : Pattern}
    (hm : ∀ prev t, m prev t = if startsLike q t then some ⟨q.length, []⟩ else none) :
    ∀ (t : Text) (prev : Option Char) (skip offset : Nat) (after : Bool),
      foundIn (offset + byteLen (t.take skip)) (m.scan prev skip after t) =
        hitsFrom q offset skip t := by
  have hpos : 0 < q.length := length_pos_iff.mpr hq
  intro t
  induction t with
  | nil =>
    intro prev skip offset after
    have hnone : m prev [] = none := by
      rw [hm, if_neg]
      intro h
      have := length_le_of_startsLike h
      rw [length_nil] at this
      omega
    rw [Pattern.scan, hnone]
    split <;> rfl
  | cons x xs ih =>
    intro prev skip offset after
    cases skip with
    | succ k =>
      have hrest := ih (some x) k (offset + byteLen [x]) true
      rw [Pattern.scan, hitsFrom, ← hrest, take_succ_cons, byteLen_cons x (xs.take k), add_assoc]
    | zero =>
      rw [Pattern.scan, hm, hitsFrom, take_zero, byteLen_nil, add_zero]
      by_cases h : startsLike q (x :: xs) = true
      · rw [if_pos h, if_pos h]
        obtain ⟨k, hk⟩ : ∃ k, q.length = k + 1 := ⟨q.length - 1, by omega⟩
        have hrest := ih (some x) k (offset + byteLen [x]) true
        rw [hk]
        rw [foundIn, Nat.add_sub_cancel, ← hrest, take_succ_cons,
          byteLen_cons x (xs.take k), add_assoc]
      · have hrest := ih (some x) 0 (offset + byteLen [x]) false
        rw [take_zero, byteLen_nil, add_zero] at hrest
        rw [if_neg h, if_neg h]
        rw [foundIn, hrest]

theorem findIter_all_char (t : Text) :
    findIter (Regex.all (q.map .char)).pattern t = hits q 0 t := by
  have h := foundIn_scan hq (fun prev t => pattern_all_char q prev t) t none 0 0 false
  exact h

end Query

end AiProxy.Mcp
