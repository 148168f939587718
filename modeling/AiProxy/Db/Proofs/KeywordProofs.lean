import AiProxy.Db.SessionSearch

/-!
# What the keyword filters find

An escaped keyword between `%` finds the texts that contain it, up to ASCII case. The keyword is first put
into lower case by the Unicode tables, and the texts are not.
-/

namespace AiProxy.Db

open List
open Sqlite (lower like)
open Mcp (trim)
open Utf8 (toNat_toLower)

theorem lower_lower (t : Text) : lower (lower t) = lower t := by
  unfold lower
  rw [map_map]
  refine map_congr_left fun c _ => Char.toNat_inj.mp ?_
  rw [Function.comp_apply, toNat_toLower, toNat_toLower]
  split_ifs <;> omega

/-- An escaped character stands for itself. -/
theorem like_escaped_cons (c : Char) (pattern t : Text) :
    like '\\' ((if c = '\\' ∨ c = '%' ∨ c = '_' then ['\\', c] else [c]) ++ pattern) t = true ↔
      ∃ x rest, t = x :: rest ∧ c.toLower = x.toLower ∧ like '\\' pattern rest = true := by
  split
  · cases t <;> simp [like]
  · next hplain =>
    obtain ⟨hescape, hany, hone⟩ := (not_or.mp hplain).imp_right not_or.mp
    rw [singleton_append, like.eq_def]
    cases t <;> simp [hescape, hany, hone]

theorem like_escaped (query pattern t : Text) :
    like '\\' (escapeLikePattern query ++ pattern) t = true ↔
      ∃ found rest, t = found ++ rest ∧ lower query = lower found ∧ like '\\' pattern rest = true := by
  induction query generalizing t with
  | nil =>
    constructor
    · exact fun h => ⟨[], t, rfl, rfl, h⟩
    · rintro ⟨found, rest, rfl, hfound, h⟩
      rw [map_eq_nil_iff.mp hfound.symm]
      exact h
  | cons c query ih =>
    rw [escapeLikePattern, flatMap_cons, append_assoc, like_escaped_cons]
    constructor
    · rintro ⟨x, t, rfl, hx, ht⟩
      obtain ⟨found, rest, rfl, hfound, h⟩ := (ih t).mp ht
      exact ⟨x :: found, rest, rfl, congrArg₂ List.cons hx hfound, h⟩
    · rintro ⟨found, rest, rfl, hfound, h⟩
      obtain ⟨x, found, rfl, hx, hfound⟩ := map_eq_cons_iff.mp hfound.symm
      exact ⟨x, found ++ rest, rfl, hx.symm, (ih _).mpr ⟨found, rest, rfl, hfound.symm, h⟩⟩

theorem like_containing (query t : Text) :
    like '\\' (containing query) t = true ↔ lower query <:+: lower t := by
  have htail : ∀ t, like '\\' (containing query) t = true ↔
      ∃ s, s <:+ t ∧ ∃ found rest, s = found ++ rest ∧ lower query = lower found := by
    intro t
    have hany : ∀ rest : Text, like '\\' ['%'] rest = true := fun rest => by simp [like]
    rw [containing, like.eq_def]
    dsimp only
    rw [if_neg (by decide), if_pos rfl, any_eq_true]
    simp only [mem_tails, like_escaped, hany, and_true]
  rw [htail]
  constructor
  · rintro ⟨s, ⟨before, rfl⟩, found, rest, rfl, hfound⟩
    refine ⟨lower before, lower rest, ?_⟩
    simp only [lower, map_append, append_assoc] at hfound ⊢
    rw [hfound]
  · rintro ⟨before, after, h⟩
    obtain ⟨s, rest, rfl, hs, -⟩ := map_eq_append_iff.mp h.symm
    obtain ⟨before, found, rfl, -, hfound⟩ := map_eq_append_iff.mp hs
    exact ⟨found ++ rest, ⟨before, (append_assoc ..).symm⟩, found, rest, rfl, hfound.symm⟩

/-- The conditions for a keyword select what contains it, up to ASCII case. -/
structure FindsSubstrings (p : SearchPlatform) (keyword : Text) : Prop where
  session : ∀ failuresAvailable fields row,
    selects p failuresAvailable { keyword := some keyword, searchIn := fields } row = true ↔
      ∃ field ∈ if fields.isEmpty then [.url, .host, .path, .method] else fields,
        ∃ text ∈ field.column row, lower keyword <:+: text
  host : ∀ failuresAvailable row,
    selects p failuresAvailable { hostContains := some keyword } row = true ↔
      lower keyword <:+: lower row.host
  message : ∀ payloadText,
    wsQueryCondition p keyword payloadText = true ↔ lower keyword <:+: lower payloadText

theorem lower_column {field : SessionSearchField} {row : StoredSession} {text : Text}
    (h : text ∈ field.column row) : lower text = text := by
  cases field <;> simp only [SessionSearchField.column, Option.mem_def, Option.some.injEq,
    Option.map_eq_some_iff] at h
  all_goals first
    | exact h ▸ lower_lower _
    | obtain ⟨_, -, rfl⟩ := h; exact lower_lower _

/-- The keyword filters find substrings exactly if the Unicode lower case of the keyword is its ASCII
lower case, up to ASCII case. -/
theorem finds_substrings_iff {p : SearchPlatform} {keyword : Text} (htrim : trim keyword = keyword)
    (hne : keyword ≠ []) :
    FindsSubstrings p keyword ↔ lower (p.toLowercase keyword) = lower keyword := by
  have hgiven : given (some keyword) = some keyword := by
    simp [given, htrim, Option.filter, isEmpty_eq_false_iff.mpr hne]
  have hfound : ∀ text, like '\\' (containing (p.toLowercase keyword)) (lower text) = true ↔
      lower (p.toLowercase keyword) <:+: lower text := fun text => by
    rw [like_containing, lower_lower]
  constructor
  · intro h
    -- the keyword finds its lower case and has to be found in itself
    have hlower := (h.message (p.toLowercase keyword)).mp ((hfound _).mpr (infix_refl _))
    have hself := (hfound keyword).mp ((h.message keyword).mpr (infix_refl _))
    exact hself.eq_of_length (le_antisymm hself.length_le hlower.length_le)
  · intro hsame
    have hnone : given none = none := rfl
    refine ⟨fun failuresAvailable fields row => ?_, fun failuresAvailable row => ?_, fun text => ?_⟩
    · have hselects : selects p failuresAvailable { keyword := some keyword, searchIn := fields } row =
          keywordCondition p { keyword := some keyword, searchIn := fields } keyword row := by
        simp [selects, conditions, columnConditions, whenGiven, failureConditions, wantsFailure,
          hnone, hgiven]
      rw [hselects, keywordCondition, any_eq_true]
      refine exists_congr fun field => and_congr_right fun _ => ?_
      cases hcolumn : field.column row with
      | none => simp
      | some text =>
        rw [Option.any_some, like_containing, lower_column hcolumn, hsame]
        simp
    · have hselects : selects p failuresAvailable { hostContains := some keyword } row =
          like '\\' (containing (p.toLowercase keyword)) (lower row.host) := by
        simp [selects, conditions, columnConditions, whenGiven, failureConditions, wantsFailure,
          hnone, hgiven]
      rw [hselects, hfound, hsame]
    · rw [← hsame]
      exact hfound text

def accents : SearchPlatform where
  toLowercase t := t.map fun c => if c = 'É' then 'é' else c.toLower
  toUppercase t := t
  hasQueryParam _ _ _ := false

theorem finds_substrings_iff_percent : FindsSubstrings accents "50%_A" :=
  (finds_substrings_iff (by decide) (by decide)).mpr (by decide)

/-- The keyword `É` is searched for as `é`, which a text with `É` does not contain. -/
theorem accented_keyword_missed :
    wsQueryCondition accents ['É'] ['É'] = false ∧ ¬ FindsSubstrings accents ['É'] := by
  have hmissed : wsQueryCondition accents ['É'] ['É'] = false := by decide
  refine ⟨hmissed, fun h => ?_⟩
  have hfound := (h.message ['É']).mpr (infix_refl _)
  rw [hmissed] at hfound
  cases hfound

end AiProxy.Db
