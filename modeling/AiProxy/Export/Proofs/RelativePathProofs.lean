import AiProxy.Export.RelativePath
import AiProxy.Mcp.Proofs.ByteOffsetProofs

/-!
# Which exported names are portable

A segment is cut after its end was trimmed. An extension that is kept ends it well; without one the
cut can leave a dot or a space at the end.
-/

namespace AiProxy.Export

open List
open Mcp (byteLen byteLen_singleton_le takeBytes trim)

variable {name t : Text} {c : Char}

theorem endsPlain_append (a : Text) (h : t ≠ []) : EndsPlain (a ++ t) ↔ EndsPlain t := by
  rw [EndsPlain, getLast?_append_of_ne_nil a h, EndsPlain]

theorem portable_iff (h : Safe name) : Portable name ↔ EndsPlain name := by
  refine ⟨Portable.ends, fun hends => ⟨h, ⟨?_, ?_⟩, hends⟩⟩
  all_goals
    rintro rfl
    exact (hends '.' rfl).1 rfl

/-! ## One segment -/

theorem prefix_takeBytes (n : Nat) (t : Text) : takeBytes n t <+: t := by
  induction t generalizing n with
  | nil => exact prefix_refl []
  | cons c t ih =>
    rw [takeBytes]
    split
    · exact cons_prefix_cons.mpr ⟨rfl, ih _⟩
    · exact nil_prefix

theorem keptExtension_suffix (t : Text) : keptExtension t <:+ t := by
  unfold keptExtension
  split
  · exact rtakeWhile_suffix _ t
  · exact nil_suffix

theorem truncateSegment_spec (hne : t ≠ []) (hends : EndsPlain t) :
    truncateSegment t ≠ [] ∧ (∀ c ∈ truncateSegment t, c ∈ t ∨ c = '.') ∧
      (EndsPlain (truncateSegment t) ↔ ¬ CutAtDot t) := by
  unfold truncateSegment CutAtDot
  by_cases hlen : byteLen t ≤ maxExportSegmentLen
  · rw [if_pos hlen]
    exact ⟨hne, fun c hc => .inl hc, iff_of_true hends fun hcut => not_lt.mpr hlen hcut.1⟩
  · rw [if_neg hlen]
    dsimp only
    by_cases hext : keptExtension t = []
    · rw [if_pos hext, hext]
      refine ⟨?_, fun c hc => .inl ((prefix_takeBytes _ t).subset hc), ?_⟩
      · obtain ⟨c, cs, rfl⟩ := exists_cons_of_ne_nil hne
        rw [takeBytes, if_pos ((byteLen_singleton_le c).trans (by decide))]
        exact cons_ne_nil c _
      · simp only [lt_of_not_ge hlen, true_and, not_not]
        rfl
    · obtain ⟨front, hfront⟩ := keptExtension_suffix t
      rw [if_neg hext]
      refine ⟨by simp, fun c hc => ?_, iff_of_true ?_ fun hcut => hext hcut.2.1⟩
      · rcases mem_append.mp hc with hc | hc
        · exact .inl ((prefix_takeBytes _ t).subset hc)
        · rcases mem_cons.mp hc with rfl | hc
          · exact .inr rfl
          · exact .inl ((keptExtension_suffix t).subset hc)
      · rw [append_cons, endsPlain_append _ hext]
        rwa [← hfront, endsPlain_append _ hext] at hends

theorem trimmedSegment_endsPlain (segment : Text) : EndsPlain (trimmedSegment segment) := by
  unfold trimmedSegment
  intro c hc
  obtain ⟨hne, rfl⟩ := mem_getLast?_eq_getLast hc
  simpa using rdropWhile_last_not _ _ hne

theorem mem_of_mem_trim (h : c ∈ trim t) : c ∈ t := by
  have hc := (dropWhile_sublist _).subset (mem_reverse.mp h)
  exact (dropWhile_sublist _).subset (mem_reverse.mp hc)

theorem trimmedSegment_legal (segment : Text) : ∀ c ∈ trimmedSegment segment, IsLegal c := by
  intro c hc
  have hc := mem_of_mem_trim ((List.rdropWhile_prefix _ _).subset hc)
  obtain ⟨d, -, rfl⟩ := mem_map.mp hc
  split
  · decide
  · next hd =>
    simp only [isIllegal, Bool.or_eq_true, not_or, contains_iff_mem] at hd
    exact ⟨hd.1.1, Bool.eq_false_iff.mpr hd.1.2⟩

theorem isReserved_underscore (t : Text) : isReserved ('_' :: t) = false := by
  have htrim : ∀ s, ∃ rest, trim ('_' :: s) = '_' :: rest := by
    intro s
    rw [trim, dropWhile_cons_of_neg (by decide), reverse_cons, dropWhile_append]
    split
    · exact ⟨[], rfl⟩
    · exact ⟨_, reverse_concat⟩
  obtain ⟨rest, hrest⟩ := htrim (t.takeWhile (· ≠ '.'))
  have hstem : deviceStem ('_' :: t) = '_' :: rest.map Char.toLower :=
    congrArg (List.map Char.toLower) hrest
  rw [isReserved, hstem, any_eq_false]
  have hhead : ∀ stem ∈ windowsReservedStems, stem.toList.head? ≠ some '_' := by decide
  intro stem hmem heq
  exact hhead stem hmem (by rw [of_decide_eq_true heq]; rfl)

theorem sanitizePathSegment_spec (segment : Text) : Safe (sanitizePathSegment segment) ∧
      (EndsPlain (sanitizePathSegment segment) ↔ ¬ CutAtDot (trimmedSegment segment)) := by
  unfold sanitizePathSegment
  dsimp only
  split
  · next hdots =>
    refine ⟨⟨by decide, forall_mem_singleton.mpr (by decide), by decide⟩,
      iff_of_true (by rintro c ⟨⟩; decide) ?_⟩
    rcases hdots with h | h | h
    all_goals exact fun hcut => absurd (h ▸ hcut.1) (by decide)
  · next hdots =>
    obtain ⟨hne, hmem, hends⟩ := truncateSegment_spec (fun h => hdots (.inl h))
      (trimmedSegment_endsPlain segment)
    generalize truncateSegment (trimmedSegment segment) = truncated at hne hmem hends
    have hlegal : ∀ c ∈ truncated, IsLegal c := by
      intro c hc
      rcases hmem c hc with hc | rfl
      · exact trimmedSegment_legal segment c hc
      · decide
    split
    · exact ⟨⟨cons_ne_nil _ _, forall_mem_cons.mpr ⟨by decide, hlegal⟩,
        isReserved_underscore _⟩, (endsPlain_append ['_'] hne).trans hends⟩
    · next hfree => exact ⟨⟨hne, hlegal, Bool.eq_false_iff.mpr hfree⟩, hends⟩

/-! ## The file name -/

theorem alphanum_plain (h : c.isAlphanum = true) : IsLegal c ∧ c ≠ '.' ∧ c ≠ ' ' := by
  have hall : ∀ n < 123, (Char.ofNat n).isAlphanum = true →
      IsLegal (Char.ofNat n) ∧ Char.ofNat n ≠ '.' ∧ Char.ofNat n ≠ ' ' := by decide
  have hc := hall c.toNat (Utf8.toNat_lt_of_isAlphanum h)
  rw [Char.ofNat_toNat] at hc
  exact hc h

theorem plain_of_alphanum (h : t.all (·.isAlphanum) = true) :
    (∀ c ∈ t, IsLegal c) ∧ EndsPlain t := by
  have hall : ∀ c ∈ t, IsLegal c ∧ c ≠ '.' ∧ c ≠ ' ' := fun c hc =>
    alphanum_plain (all_eq_true.mp h c hc)
  exact ⟨fun c hc => (hall c hc).1, fun c hc => (hall c (mem_of_getLast? hc)).2⟩

def IsExtension (s : String) : Prop := s.toList ≠ [] ∧ s.toList.all (·.isAlphanum) = true
  deriving Decidable

theorem guessResponseExtension_isExtension (mimeType : Text) :
    IsExtension (guessResponseExtension mimeType) := by
  have hmime : ∀ entry ∈ mimeExtensions, IsExtension entry.2 := by decide
  have himage : ∀ subtype ∈ imageExtensions, IsExtension subtype := by decide
  unfold guessResponseExtension
  dsimp only
  split
  · next entry hfind => exact hmime entry (mem_of_find?_eq_some hfind)
  · split_ifs
    any_goals decide
    cases hfind : imageExtensions.find? _ with
    | none => decide
    | some subtype => exact himage subtype (mem_of_find?_eq_some hfind)

theorem takeWhile_append_dot (a b : Text) :
    (a ++ '.' :: b).takeWhile (· ≠ '.') = a.takeWhile (· ≠ '.') := by
  induction a with
  | nil => rfl
  | cons c a ih => rw [cons_append, takeWhile_cons, takeWhile_cons, ih]

theorem ensureFileExtension_portable (h : Safe name) (mimeType : Option Text) :
    Portable (ensureFileExtension name mimeType) := by
  unfold ensureFileExtension
  dsimp only
  split
  · next hext =>
    have hsuffix : afterLastDot name <:+ name := rtakeWhile_suffix _ name
    obtain ⟨front, hfront⟩ := hsuffix
    refine (portable_iff h).mpr ?_
    rw [← hfront, endsPlain_append front hext.2.2.1]
    exact (plain_of_alphanum hext.2.2.2.2).2
  · obtain ⟨hne, hall⟩ := guessResponseExtension_isExtension (mimeType.getD [])
    generalize (guessResponseExtension (mimeType.getD [])).toList = ext at hne hall
    obtain ⟨hlegal, hends⟩ := plain_of_alphanum hall
    refine (portable_iff ⟨by simp, ?_, ?_⟩).mpr ?_
    · exact forall_mem_append.mpr ⟨h.legal, forall_mem_cons.mpr ⟨by decide, hlegal⟩⟩
    · rw [isReserved, deviceStem, takeWhile_append_dot]
      exact h.device
    · rw [append_cons, endsPlain_append _ hne]
      exact hends

theorem fileStem_safe (path : Text) : Safe (fileStem path) := by
  have hindex : Safe "index" := ⟨by decide, (plain_of_alphanum (by decide)).1, by decide⟩
  unfold fileStem
  split
  · exact hindex
  · cases (allSegments path).getLast? with
    | none => exact hindex
    | some segment => exact (sanitizePathSegment_spec segment).1

/-- The names of an exported path are portable, unless a directory among the first 23 is cut after a dot
or a space. There are at most 24 names. -/
theorem exported_names_portable_iff (parsedPath : String → Option Text) (url : String)
    (mimeType : Option Text) :
    (∀ path ∈ deriveResponseRelativePath parsedPath url mimeType,
      path.length ≤ 24 ∧ ∀ name ∈ path, Portable name) ↔
    ∀ path ∈ parsedPath url, ∀ segment ∈ (directorySegments path).take 23,
      ¬ CutAtDot (trimmedSegment segment) := by
  rw [deriveResponseRelativePath]
  cases parsedPath url with
  | none => simp
  | some path =>
    have hfile := ensureFileExtension_portable (fileStem_safe path) mimeType
    simp only [Option.map_some, Option.mem_some_iff, forall_eq', forall_mem_append,
      forall_mem_map, forall_mem_singleton, hfile, and_true]
    have hdepth : (((directorySegments path).take (maxExportPathDepth - 1)).map sanitizePathSegment ++
        [ensureFileExtension (fileStem path) mimeType]).length ≤ 24 := by
      simp only [length_append, length_map, length_take, length_singleton, maxExportPathDepth]
      omega
    rw [and_iff_right hdepth]
    refine forall₂_congr fun segment _ => ?_
    obtain ⟨hsafe, hends⟩ := sanitizePathSegment_spec segment
    exact (portable_iff hsafe).trans hends

/-- The paths of the URLs of one host. -/
def Sample.parsedPath (url : String) : Option Text :=
  if "https://example.com/".toList.isPrefixOf url.toList then some (url.toList.drop 19) else none

/-- A directory of 98 letters, a dot and 20 letters is cut after the dot. -/
theorem cut_directory_ends_in_dot :
    deriveResponseRelativePath Sample.parsedPath (String.ofList ("https://example.com/" ++
        List.replicate 98 'a' ++ '.' :: (List.replicate 20 'b' ++ "/x"))) none =
      some [List.replicate 98 'a' ++ ['.'], "x.bin"] ∧
    ¬ Portable (List.replicate 98 'a' ++ ['.']) := by
  refine ⟨by decide +kernel, fun h => (h.ends '.' ?_).1 rfl⟩
  decide

end AiProxy.Export
