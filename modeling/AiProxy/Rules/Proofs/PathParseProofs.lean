import AiProxy.Rules.JsonPath

/-!
# Which paths are accepted

What the loop of the parser does with the rest of a path depends on the last character before it
(`AtPlace`).
-/

namespace AiProxy.Rules

open List
open Http (asBytes trim)

/-- The parser sees an empty segment after a character. -/
def sees : Char → List Char → Bool
  | _, [] => false
  | before, c :: rest =>
    (c = '.' && (before = '.' || before = ']') && (rest = [] || rest.head? = some '.')) || sees c rest

theorem sees_iff (before : Char) (t : List Char) :
    sees before t = true ↔ ∃ x ∈ ['.', ']'], [x, '.', '.'] <:+: before :: t ∨
      [x, '.'] <:+ before :: t := by
  induction t generalizing before with
  | nil => simp [sees, infix_cons_iff, suffix_cons_iff]
  | cons c rest ih =>
    rw [sees, Bool.or_eq_true, ih]
    constructor
    · rintro (hhere | ⟨x, hx, hinfix | hsuffix⟩)
      · simp only [Bool.and_eq_true, Bool.or_eq_true, decide_eq_true_eq] at hhere
        obtain ⟨⟨rfl, hbefore⟩, hrest⟩ := hhere
        refine ⟨before, by simpa using hbefore, ?_⟩
        rcases hrest with rfl | hdot
        · exact .inr suffix_rfl
        · obtain ⟨tail, rfl⟩ := head?_eq_some_iff.mp hdot
          exact .inl (List.IsPrefix.isInfix ⟨tail, rfl⟩)
      · exact ⟨x, hx, .inl (infix_cons hinfix)⟩
      · exact ⟨x, hx, .inr (suffix_cons_iff.mpr (.inr hsuffix))⟩
    · rintro ⟨x, hx, hinfix | hsuffix⟩
      · rcases infix_cons_iff.mp hinfix with hbegins | hinfix
        · left
          obtain ⟨tail, htail⟩ := hbegins
          cases htail
          simpa using hx
        · exact .inr ⟨x, hx, .inl hinfix⟩
      · rcases suffix_cons_iff.mp hsuffix with hall | hsuffix
        · left
          cases hall
          simpa using hx
        · exact .inr ⟨x, hx, .inr hsuffix⟩

theorem parseUsize_dot {raw : List Char} (h : '.' ∈ raw) : parseUsize raw = none := by
  have hdigits : ∀ digits : List Char, '.' ∈ digits →
      ¬ (digits ≠ [] ∧ digits.all Char.isDigit = true) := by
    rintro digits hdot ⟨-, hall⟩
    exact absurd (all_eq_true.mp hall '.' hdot) (by decide)
  unfold parseUsize
  split
  · next rest => exact if_neg (hdigits rest (by simpa using h))
  · exact if_neg (hdigits raw h)

theorem bracketsOk_dot {raw : List Char} (h : '.' ∈ raw) (t : List Char) :
    bracketsOk t (some raw) = false := by
  induction t generalizing raw with
  | nil => rfl
  | cons c rest ih =>
    rw [bracketsOk]
    split
    · rw [parseUsize_dot h]; rfl
    · exact ih (by simp [h])

theorem sees_cons_of_ne {before c : Char} (h : c ≠ '.') (rest : List Char) :
    sees before (c :: rest) = sees c rest := by simp [sees, h]

/-- The parser is in a bracket, in a key, or after a dot or an array index. -/
def AtPlace (segments : List JsonPathSegment) (key : List Char) (before : Char) :
    Option (List Char) → Prop
  | some _ => key = []
  | none => (key = [] → segments ≠ []) ∧ (key = [] ↔ before = '.' ∨ before = ']')

/-- The parser goes through this text exactly if it sees nothing wrong in it. -/
def Follows (path : String) (t : List Char) : Prop :=
  ∀ {segments : List JsonPathSegment} {key : List Char} {before : Char} {raw? : Option (List Char)},
    AtPlace segments key before raw? →
      (scanPath path t segments key raw?).isOk = (bracketsOk t raw? && !sees before t)

theorem Follows.plain {path : String} {rest : List Char} (h : Follows path rest) {c : Char}
    (hdot : c ≠ '.') (segments : List JsonPathSegment) (key : List Char) :
    (scanPath path (c :: rest) segments key none).isOk =
      (bracketsOk (c :: rest) none && !sees c rest) := by
  rw [scanPath, if_neg hdot, bracketsOk]
  split
  · have hopen : AtPlace (pushKey segments key) [] c (some []) := rfl
    exact h hopen
  · split
    · next hc => simp [hc, Except.isOk, Except.toBool]
    · next hc =>
      have hkey : AtPlace segments (key ++ [c]) c none := ⟨by simp, by simp [hdot, hc]⟩
      rw [h hkey]
      simp [hc]

theorem follows (path : String) (t : List Char) : Follows path t := by
  induction t with
  | nil =>
    intro segments key before raw? hplace
    cases raw? with
    | some raw => rfl
    | none =>
      have hne : pushKey segments key ≠ [] := by
        unfold pushKey
        split
        · next hkey => exact hplace.1 hkey
        · simp
      rw [scanPath, if_neg hne]
      rfl
  | cons c rest ih =>
    intro segments key before raw? hplace
    cases raw? with
    | some raw =>
      have hkey : key = [] := hplace
      rw [scanPath, bracketsOk]
      split
      · next hc =>
        rw [sees_cons_of_ne (by rw [hc]; decide), hc]
        cases hparse : parseUsize raw with
        | none => split <;> rfl
        | some i =>
          have hraw : raw ≠ [] := by
            rintro rfl
            cases hparse
          have hgap : AtPlace (segments ++ [.index i]) key ']' none := ⟨by simp, by simp [hkey]⟩
          rw [if_neg hraw]
          exact ih hgap
      · have hinside : AtPlace segments key c (some (raw ++ [c])) := hkey
        rw [ih hinside]
        by_cases hc : c = '.'
        · -- no index has a dot
          rw [bracketsOk_dot (by simp [hc])]
          rfl
        · rw [sees_cons_of_ne hc]
    | none =>
      obtain ⟨hsegments, hkey⟩ := hplace
      by_cases hc : c = '.'
      · subst hc
        have hbrackets : bracketsOk ('.' :: rest) none = bracketsOk rest none := by
          simp [bracketsOk]
        rw [scanPath, if_pos rfl, hbrackets, sees]
        by_cases hempty : key = []
        · have hbefore : (decide (before = '.') || decide (before = ']')) = true := by
            simpa using hkey.mp hempty
          have hgap : AtPlace segments [] '.' none := ⟨fun _ => hsegments hempty, by simp⟩
          rw [if_pos hempty, hbefore]
          split
          · next hends =>
            rcases hends with h | h | h
            · exact absurd h (hsegments hempty)
            · simp [h, Except.isOk, Except.toBool]
            · simp [h, Except.isOk, Except.toBool]
          · next hends =>
            obtain ⟨-, hrest, hdot⟩ : segments ≠ [] ∧ rest ≠ [] ∧ rest.head? ≠ some '.' := by
              simpa only [not_or] using hends
            rw [ih hgap]
            simp [hrest, hdot]
        · have hbefore : (decide (before = '.') || decide (before = ']')) = false := by
            simpa using mt hkey.mpr hempty
          have hgap : AtPlace (pushKey segments key) [] '.' none :=
            ⟨fun _ => by simp [pushKey, hempty], by simp⟩
          rw [if_neg hempty, ih hgap, hbefore]
          simp
      · rw [ih.plain hc, sees_cons_of_ne hc]

theorem isOk_scanPath_iff (path : String) {t : List Char} (ht : t ≠ []) :
    (scanPath path t [] [] none).isOk = true ↔ bracketsOk t none = true ∧ ¬ SeesEmptySegment t := by
  obtain ⟨c, rest, rfl⟩ := exists_cons_of_ne_nil ht
  rw [SeesEmptySegment, ← sees_iff]
  by_cases hc : c = '.'
  · subst hc
    have hbegins : ['.'] <+: '.' :: rest := ⟨rest, rfl⟩
    simp [hbegins, scanPath, Except.isOk, Except.toBool]
  · have hbegins : ¬ ['.'] <+: c :: rest := by
      rintro ⟨tail, htail⟩
      cases htail
      exact hc rfl
    rw [Follows.plain (@follows path rest) hc]
    simp [hbegins]

theorem parseJsonFieldPath_ok_iff (path : String) :
    (∃ segments, parseJsonFieldPath path = .ok segments) ↔
      normalizedPath path ≠ [] ∧ bracketsOk (normalizedPath path) none = true ∧
        ¬ SeesEmptySegment (normalizedPath path) := by
  have hisOk : ∀ r : Except String (List JsonPathSegment), (∃ segments, r = .ok segments) ↔
      r.isOk = true := by
    intro r
    cases r <;> simp [Except.isOk, Except.toBool]
  rw [parseJsonFieldPath, normalizedPath]
  by_cases hroot : (trim path).toList = ['$']
  · rw [hroot]
    simp [stripRoot]
  · rw [if_neg hroot]
    simp only
    split
    · next hempty => simp [hempty]
    · next hne =>
      rw [hisOk, isOk_scanPath_iff path hne]
      simp [hne]

theorem scanPath_pieces (path : String) {t : List Char} (ht : '[' ∉ t) :
    ∀ {segments result : List JsonPathSegment} {key : List Char},
      scanPath path t segments key none = .ok result →
        result = segments ++ (pieces key t).map keySegment := by
  induction t with
  | nil =>
    intro segments result key h
    rw [scanPath] at h
    split at h
    · cases h
    · cases h
      rw [pushKey, pieces]
      split <;> simp [keySegment]
  | cons c rest ih =>
    intro segments result key h
    obtain ⟨hc, hrest⟩ : c ≠ '[' ∧ '[' ∉ rest := by
      simpa [eq_comm] using ht
    rw [scanPath] at h
    rw [pieces]
    split at h
    · next hdot =>
      rw [if_pos hdot]
      split at h
      · next hkey =>
        split at h
        · cases h
        · rw [ih hrest h, if_pos hkey]
          rfl
      · next hkey =>
        rw [ih hrest h, pushKey, if_neg hkey, if_neg hkey]
        simp [keySegment]
    · next hdot =>
      rw [if_neg hdot]
      split at h
      · cases h
      · exact ih hrest h

theorem keySegment_injective : Function.Injective keySegment := by
  intro a b h
  have hbytes : asBytes (String.ofList a) = asBytes (String.ofList b) := by
    exact Json.Step.key.inj h
  have htext : String.ofList a = String.ofList b := Utf8.bytes_inj.mp hbytes
  simpa using congrArg String.toList htext

theorem intercalate_pieces (t : List Char) :
    ∀ {key : List Char}, (key = [] → t ≠ [] ∧ t.head? ≠ some '.') → ¬ ['.', '.'] <:+: t →
      ¬ ['.'] <:+ t → ['.'].intercalate (pieces key t) = key ++ t := by
  induction t with
  | nil =>
    intro key hkey _ _
    have hne : key ≠ [] := fun hnil => (hkey hnil).1 rfl
    rw [pieces, if_neg hne]
    simp
  | cons c rest ih =>
    intro key hkey hdouble hlast
    have hdouble' : ¬ ['.', '.'] <:+: rest := fun h => hdouble (infix_cons h)
    have hlast' : ¬ ['.'] <:+ rest := fun h => hlast (suffix_cons_iff.mpr (.inr h))
    rw [pieces]
    split
    · next hdot =>
      subst hdot
      have hne : key ≠ [] := fun hnil => (hkey hnil).2 rfl
      have hnext : rest ≠ [] ∧ rest.head? ≠ some '.' := by
        constructor
        · rintro rfl
          exact hlast suffix_rfl
        · intro hhead
          obtain ⟨tail, rfl⟩ := head?_eq_some_iff.mp hhead
          exact hdouble (List.IsPrefix.isInfix ⟨tail, rfl⟩)
      have hrest : ['.'].intercalate (pieces [] rest) = [] ++ rest :=
        ih (fun _ => hnext) hdouble' hlast'
      rw [if_neg hne, singleton_append]
      cases hpieces : pieces [] rest with
      | nil =>
        rw [hpieces] at hrest
        exact absurd hrest.symm hnext.1
      | cons piece more =>
        rw [intercalate_cons_cons, ← hpieces, hrest]
        simp
    · rw [ih (fun hnil => absurd hnil (by simp)) hdouble' hlast']
      simp

theorem pieces_injective {t t' : List Char} (ht : t ≠ []) (ht' : t' ≠ []) (h : ¬ HasEmptySegment t)
    (h' : ¬ HasEmptySegment t') (hpieces : pieces [] t = pieces [] t') : t = t' := by
  have hback : ∀ {t : List Char}, t ≠ [] → ¬ HasEmptySegment t →
      ['.'].intercalate (pieces [] t) = t := by
    intro t ht h
    obtain ⟨hfirst, hdouble, hlast⟩ : ¬ ['.'] <+: t ∧ ¬ ['.', '.'] <:+: t ∧ ¬ ['.'] <:+ t := by
      simpa only [HasEmptySegment, not_or] using h
    refine intercalate_pieces t (fun _ => ⟨ht, fun hhead => hfirst ?_⟩) hdouble hlast
    obtain ⟨rest, rfl⟩ := head?_eq_some_iff.mp hhead
    exact ⟨rest, rfl⟩
  rw [← hback ht h, ← hback ht' h', hpieces]

theorem parseJsonFieldPath_pieces {path : String} {segments : List JsonPathSegment}
    (h : parseJsonFieldPath path = .ok segments) (hindex : '[' ∉ normalizedPath path) :
    segments = (pieces [] (normalizedPath path)).map keySegment := by
  rw [normalizedPath] at hindex ⊢
  rw [parseJsonFieldPath] at h
  split at h
  · cases h
  · simp only at h
    split at h
    · cases h
    · rw [scanPath_pieces path hindex h, nil_append]

/-- A path with an empty segment is rejected exactly when one is where the parser looks, or when a
bracket does not hold an index. Paths without indices denote the same segments exactly when they only
differ in empty segments, so that paths without empty segments are all different. -/
theorem empty_segments_rejected_iff (path : String) :
    ((HasEmptySegment (normalizedPath path) → ∃ e, parseJsonFieldPath path = .error e) ↔
      (HasEmptySegment (normalizedPath path) → SeesEmptySegment (normalizedPath path) ∨
        bracketsOk (normalizedPath path) none = false)) ∧
    ∀ path' segments segments', parseJsonFieldPath path = .ok segments →
      parseJsonFieldPath path' = .ok segments' → '[' ∉ normalizedPath path →
      '[' ∉ normalizedPath path' →
        (segments = segments' ↔
          pieces [] (normalizedPath path) = pieces [] (normalizedPath path')) ∧
        (¬ HasEmptySegment (normalizedPath path) → ¬ HasEmptySegment (normalizedPath path') →
          segments = segments' → normalizedPath path = normalizedPath path') := by
  constructor
  · refine forall_congr' fun hempty => ?_
    have hne : normalizedPath path ≠ [] := by
      intro hnil
      rw [hnil] at hempty
      exact absurd hempty (by decide)
    have herror : (∃ e, parseJsonFieldPath path = .error e) ↔
        ¬ ∃ segments, parseJsonFieldPath path = .ok segments := by
      cases parseJsonFieldPath path <;> simp
    rw [herror, parseJsonFieldPath_ok_iff, and_iff_right hne, not_and, not_not, imp_iff_not_or,
      Bool.not_eq_true, or_comm]
  · intro path' segments segments' h h' hindex hindex'
    have hiff : segments = segments' ↔
        pieces [] (normalizedPath path) = pieces [] (normalizedPath path') := by
      rw [parseJsonFieldPath_pieces h hindex, parseJsonFieldPath_pieces h' hindex']
      exact (map_injective_iff.mpr keySegment_injective).eq_iff
    refine ⟨hiff, fun hempty hempty' hsame => ?_⟩
    exact pieces_injective ((parseJsonFieldPath_ok_iff path).mp ⟨segments, h⟩).1
      ((parseJsonFieldPath_ok_iff path').mp ⟨segments', h'⟩).1 hempty hempty' (hiff.mp hsame)

theorem leading_dot_rejected_and_double_dot_same :
    (∃ e, parseJsonFieldPath "$..a" = .error e) ∧
      ([keySegment ['a'], keySegment ['b']] = [keySegment ['a'], keySegment ['b']] ↔
        pieces [] (normalizedPath "a.b") = pieces [] (normalizedPath " $.a..b.")) :=
  ⟨(empty_segments_rejected_iff "$..a").1.mpr (fun _ => .inl (.inl ⟨['a'], by decide⟩)) (by decide),
    ((empty_segments_rejected_iff "a.b").2 " $.a..b." _ _ (by rfl) (by rfl) (by decide)
      (by decide)).1⟩

/-- Two adjacent dots after a key are taken for one, and a dot at the end for none. -/
theorem double_dot_accepted :
    HasEmptySegment (normalizedPath "a..b") ∧ HasEmptySegment (normalizedPath "a.b.") ∧
      parseJsonFieldPath "a..b" = .ok [keySegment ['a'], keySegment ['b']] ∧
      parseJsonFieldPath "a.b." = .ok [keySegment ['a'], keySegment ['b']] ∧
      parseJsonFieldPath "a.b" = .ok [keySegment ['a'], keySegment ['b']] :=
  ⟨by decide, by decide, rfl, rfl, rfl⟩

end AiProxy.Rules
