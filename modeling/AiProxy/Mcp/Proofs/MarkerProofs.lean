import AiProxy.Lib.PosixShell
import AiProxy.Mcp.CurlContract

/-!
# Markers

The names of the placeholders hold no two underscores in a row and do not end in one, so the first two
underscores after the beginning of a marker end it.
-/

namespace AiProxy.Mcp

open Option List
open Shell (Word Adds ofText)
open Placeholders (markerOf)

variable {t name : Text} {c : Char} {w : Word}

/-! ## Names -/

/-- Every underscore is followed by something else. -/
def Solid : Text → Prop
  | [] => True
  | c :: cs => (c = '_' → ∃ d ds, cs = d :: ds ∧ d ≠ '_') ∧ Solid cs

theorem Solid.of_not_mem (h : '_' ∉ t) : Solid t := by
  induction t with
  | nil => trivial
  | cons c t ih =>
    rw [mem_cons, not_or] at h
    exact ⟨fun hc => absurd hc.symm h.1, ih h.2⟩

theorem Solid.append {u : Text} (ht : Solid t) (hu : Solid u) : Solid (t ++ u) := by
  induction t with
  | nil => exact hu
  | cons c t ih =>
    refine ⟨fun hc => ?_, ih ht.2⟩
    obtain ⟨d, ds, rfl, hd⟩ := ht.1 hc
    exact ⟨d, ds ++ u, rfl, hd⟩

theorem Solid.underscore {u : Text} (hu : Solid u) (hc : u.head? = some c)
    (hne : c ≠ '_') : Solid ('_' :: u) := by
  cases u with
  | nil => cases hc
  | cons d ds => exact ⟨fun _ => ⟨d, ds, rfl, fun hd => hne (by simpa [hd] using hc.symm)⟩, hu⟩

theorem Solid.getLast (h : Solid t) {u : Text} (ht : t = u ++ ['_']) : False := by
  induction u generalizing t with
  | nil =>
    subst ht
    obtain ⟨d, ds, hd, -⟩ := h.1 rfl
    cases hd
  | cons c u ih =>
    subst ht
    exact ih h.2 rfl

structure IsEnvName (name : Text) : Prop where
  valid : isValidEnvName name = true
  solid : Solid name
  first : ∃ c cs, name = c :: cs ∧ c.isUpper = true

theorem isValidEnvName_iff : isValidEnvName t = true ↔
    t ≠ [] ∧ ∀ c ∈ t, (c.isUpper || c.isDigit || c == '_') = true := by
  rw [isValidEnvName, Bool.and_eq_true]
  simp

theorem all_isNameChar (h : isValidEnvName t = true) : t.all Shell.isNameChar = true := by
  refine all_eq_true.mpr fun d hd => ?_
  have hd' := (isValidEnvName_iff.mp h).2 d hd
  simp only [Bool.or_eq_true] at hd'
  show (d.isUpper || d.isLower || d.isDigit || d == '_') = true
  simp only [Bool.or_eq_true]
  tauto

theorem IsEnvName.isName (h : IsEnvName name) : Shell.isName name = true := by
  obtain ⟨c, cs, rfl, hc⟩ := h.first
  have hchars := all_isNameChar h.valid
  have halpha : c.isAlpha = true := Bool.or_eq_true_iff.mpr (.inl hc)
  rw [all_cons, Bool.and_eq_true] at hchars
  rw [Shell.isName, halpha, hchars.2]
  rfl

theorem IsEnvName.extend {part : Text} (h : IsEnvName name) (hpart : isValidEnvName part = true)
    (hsolid : Solid part)
    (hfirst : ∃ c cs, part = c :: cs ∧ c ≠ '_') : IsEnvName (name ++ '_' :: part) := by
  obtain ⟨c, cs, rfl, hc⟩ := h.first
  obtain ⟨d, ds, rfl, hd⟩ := hfirst
  have hname := isValidEnvName_iff.mp h.valid
  have hmore := isValidEnvName_iff.mp hpart
  refine ⟨isValidEnvName_iff.mpr ⟨by simp, ?_⟩,
    h.solid.append (hsolid.underscore rfl hd), ⟨c, _, rfl, hc⟩⟩
  exact forall_mem_append.mpr ⟨hname.2, forall_mem_cons.mpr ⟨rfl, hmore.2⟩⟩

theorem toUpper_of_isAlphanum (h : c.isAlphanum = true) :
    (c.toUpper.isUpper || c.toUpper.isDigit) = true ∧ c.toUpper ≠ '_' := by
  have hall : ∀ n < 123, (Char.ofNat n).isAlphanum = true →
      ((Char.ofNat n).toUpper.isUpper || (Char.ofNat n).toUpper.isDigit) = true ∧
        (Char.ofNat n).toUpper ≠ '_' := by decide
  have hc := hall c.toNat (Utf8.toNat_lt_of_isAlphanum h)
  rw [Char.ofNat_toNat] at hc
  exact hc h

/-- What `env_segment` has written: words with single underscores between them, and one underscore
at the end after a separator. -/
structure SegmentOutput (output : Text) (separator : Bool) : Prop where
  valid : ∀ c ∈ output, (c.isUpper || c.isDigit || c == '_') = true
  solid : separator = false → Solid output
  ending : separator = true → ∃ words, output = words ++ ['_'] ∧ words ≠ [] ∧ Solid words
  first : ∀ c cs, output = c :: cs → c ≠ '_'

theorem segmentOutput_envSegmentFrom : ∀ (value : Text) {output : Text} {separator : Bool},
    SegmentOutput output separator →
    ∃ separator', SegmentOutput (envSegmentFrom value output separator) separator' := by
  intro value
  induction value with
  | nil => exact fun h => ⟨_, h⟩
  | cons c value ih =>
    intro output separator h
    rw [envSegmentFrom]
    by_cases hc : c.isAlphanum = true
    · rw [if_pos hc]
      obtain ⟨hupper, hne⟩ := toUpper_of_isAlphanum hc
      refine ih ⟨?_, fun _ => ?_, fun hfalse => absurd hfalse (by simp), fun d ds hd => ?_⟩
      · refine forall_mem_append.mpr ⟨h.valid, forall_mem_singleton.mpr ?_⟩
        rw [hupper, Bool.true_or]
      · have hword : Solid [c.toUpper] := ⟨fun heq => absurd heq hne, trivial⟩
        cases separator with
        | false => exact (h.solid rfl).append hword
        | true =>
          obtain ⟨words, rfl, -, hwords⟩ := h.ending rfl
          rw [append_assoc]
          exact hwords.append (hword.underscore rfl hne)
      · cases output with
        | nil =>
          obtain ⟨rfl, -⟩ := List.cons.inj hd
          exact hne
        | cons e es =>
          obtain ⟨rfl, -⟩ := List.cons.inj hd
          exact h.first _ _ rfl
    rw [if_neg hc]
    by_cases hsep : (!separator && !output.isEmpty) = true
    · rw [if_pos hsep]
      simp only [Bool.and_eq_true, Bool.not_eq_true', isEmpty_eq_false_iff] at hsep
      refine ih ⟨?_, fun hfalse => absurd hfalse (by simp), fun _ =>
        ⟨output, rfl, hsep.2, h.solid hsep.1⟩, fun d ds hd => ?_⟩
      · exact forall_mem_append.mpr ⟨h.valid, forall_mem_singleton.mpr rfl⟩
      · obtain ⟨e, es, rfl⟩ := exists_cons_of_ne_nil hsep.2
        obtain ⟨rfl, -⟩ := List.cons.inj hd
        exact h.first _ _ rfl
    · rw [if_neg hsep]
      exact ih h

theorem envSegment_spec (value : Text) :
    isValidEnvName (envSegment value) = true ∧ Solid (envSegment value) ∧
      ∃ c cs, envSegment value = c :: cs ∧ c ≠ '_' := by
  have hstart : SegmentOutput [] false :=
    ⟨forall_mem_nil _, fun _ => trivial, fun h => absurd h (by simp),
      fun c cs h => absurd h (by simp)⟩
  obtain ⟨separator, h⟩ := segmentOutput_envSegmentFrom value hstart
  -- Without the separator at its end the output is solid.
  have htrimmed : ∃ words, Solid words ∧
      ((envSegmentFrom value [] false).reverse.dropWhile (· = '_')).reverse = words ∧
      words <+: envSegmentFrom value [] false := by
    have hkeep : ∀ words : Text, Solid words →
        (words.reverse.dropWhile (· = '_')).reverse = words := by
      intro words hwords
      induction words using List.reverseRecOn with
      | nil => rfl
      | append_singleton words c _ =>
        have hc : c ≠ '_' := by
          rintro rfl
          exact hwords.getLast rfl
        rw [reverse_append, reverse_singleton, singleton_append,
          dropWhile_cons_of_neg (by simpa using hc), reverse_cons, reverse_reverse]
    cases separator with
    | false => exact ⟨_, h.solid rfl, hkeep _ (h.solid rfl), prefix_refl _⟩
    | true =>
      obtain ⟨words, hwords, -, hsolid⟩ := h.ending rfl
      refine ⟨words, hsolid, ?_, ⟨['_'], hwords.symm⟩⟩
      rw [hwords, reverse_append, reverse_singleton, singleton_append,
        dropWhile_cons_of_pos (by simp), hkeep words hsolid]
  obtain ⟨words, hsolid, hwords, hpart⟩ := htrimmed
  rw [envSegment, hwords]
  by_cases hnil : words = []
  · rw [if_pos hnil]
    exact ⟨by decide, .of_not_mem (by decide), ⟨'V', _, rfl, by decide⟩⟩
  · rw [if_neg hnil]
    obtain ⟨c, cs, rfl⟩ := exists_cons_of_ne_nil hnil
    obtain ⟨rest, hrest⟩ := hpart
    refine ⟨isValidEnvName_iff.mpr ⟨hnil, fun d hd => h.valid d ?_⟩, hsolid, ⟨c, cs, rfl, ?_⟩⟩
    · rw [← hrest]
      exact mem_append_left _ hd
    · exact h.first c (cs ++ rest) hrest.symm

theorem isEnvName_segment {word : Text} (hword : IsEnvName word) (value : Text) :
    IsEnvName (word ++ '_' :: envSegment value) := by
  obtain ⟨hvalid, hsolid, hfirst⟩ := envSegment_spec value
  exact hword.extend hvalid hsolid hfirst

theorem splitOnce_here {needle : Text} {rest : Text}
    (h : c :: t = needle ++ rest) : splitOnce needle (c :: t) = some ([], rest) := by
  have hbegun : needle.isPrefixOf (c :: t) = true := isPrefixOf_iff_prefix.mpr ⟨rest, h.symm⟩
  rw [splitOnce, if_pos hbegun, h, drop_left]

theorem splitOnce_later {needle : Text} (h : ¬ needle <+: c :: t) :
    splitOnce needle (c :: t) = (splitOnce needle t).map fun split => (c :: split.1, split.2) := by
  rw [splitOnce, if_neg fun hbegun => h (List.isPrefixOf_iff_prefix.mp hbegun)]

theorem Solid.splitOnce (h : Solid name) (rest : Text) :
    splitOnce "__" (name ++ ("__" ++ rest)) = some (name, rest) := by
  induction name with
  | nil => exact splitOnce_here rfl
  | cons c name ih =>
    have hnot : ¬ "__" <+: c :: (name ++ ("__" ++ rest)) := by
      intro hbegun
      obtain ⟨hc, htail⟩ := cons_prefix_cons.mp hbegun
      obtain ⟨d, ds, rfl, hd⟩ := h.1 hc.symm
      exact hd (cons_prefix_cons.mp htail).1.symm
    rw [cons_append, splitOnce_later hnot, ih h.2]
    rfl

def Placeholders.Registered (ps : Placeholders) (name : Text) : Prop :=
  ∃ item ∈ ps.items, item.name = name

structure Placeholders.Sound (nonce : Text) (ps : Placeholders) : Prop where
  markerPrefix : ps.markerPrefix = "__AIPROXY_ENV_" ++ nonce ++ ['_']
  names : ∀ item ∈ ps.items, IsEnvName item.name

/-- A text with markers is the text of a word, with the nonce in the markers only. -/
inductive Marked (nonce : Text) (ps : Placeholders) : Text → Word → Prop where
  | nil : Marked nonce ps [] []
  | char {c : Char} {t : Text} {w : Word} (fresh : ¬ nonce <+: c :: t) (rest : Marked nonce ps t w) :
    Marked nonce ps (c :: t) (.char c :: w)
  | marker {name t : Text} {w : Word} (registered : ps.Registered name)
    (rest : Marked nonce ps t w) : Marked nonce ps (ps.markerOf name ++ t) (.param name :: w)

theorem Placeholders.byName_isSome {ps : Placeholders} :
    (ps.byName name).isSome = true ↔ ps.Registered name := by
  rw [Placeholders.byName, isSome_map, Placeholders.Registered]
  simp

section Nonce

variable {nonce : Text} {ps : Placeholders} (hn : IsNonce nonce) (hs : ps.Sound nonce)

include hn in
theorem IsNonce.not_mem (hc : isLowerHex c = false) : c ∉ nonce := by
  intro hmem
  rw [hn.hex c hmem] at hc
  cases hc

include hn in
theorem Marked.locate (h : Marked nonce ps t w) :
    ∀ {k : Nat}, nonce <+: t.drop k → ∃ a name b, t = a ++ (ps.markerOf name ++ b) ∧ a.length ≤ k := by
  induction h with
  | nil =>
    intro k hk
    rw [drop_nil, prefix_nil] at hk
    have := hn.length
    rw [hk] at this
    cases this
  | @char c t w fresh rest ih =>
    intro k hk
    cases k with
    | zero => exact absurd hk fresh
    | succ k =>
      obtain ⟨a, name, b, rfl, hle⟩ := ih hk
      exact ⟨c :: a, name, b, rfl, Nat.succ_le_succ hle⟩
  | @marker name t w registered rest ih =>
    intro k _
    exact ⟨[], name, t, rfl, Nat.zero_le k⟩

include hn hs in
theorem Marked.not_begun (h : Marked nonce ps t w) : ¬ ps.markerPrefix <+: c :: t := by
  intro hbegun
  have hlen := hn.length
  rw [hs.markerPrefix] at hbegun
  obtain ⟨rest, hrest⟩ := hbegun
  have hdrop : t.drop 13 = nonce ++ ('_' :: rest) := by
    have := congrArg (List.drop 14) hrest
    rw [append_assoc, append_assoc] at this
    exact this.symm
  obtain ⟨a, name, b, ht, hle⟩ := h.locate hn (k := 13) (by rw [hdrop]; exact prefix_append _ _)
  -- The last underscore before the nonce of that marker would stand in the nonce found here.
  have hthis : (t.drop 13)[a.length]? = some '_' := by
    rw [getElem?_drop, ht, markerOf, hs.markerPrefix,
      getElem?_append_right (by omega), Nat.add_sub_cancel]
    rfl
  rw [hdrop, getElem?_append_left (by omega)] at hthis
  exact hn.not_mem rfl (mem_of_getElem? hthis)

include hn hs in
theorem Marked.splitOnce (h : Marked nonce ps t w) :
    (splitOnce ps.markerPrefix t = none ∧ w = ofText t) ∨
    ∃ a name b v, splitOnce ps.markerPrefix t = some (a, name ++ ("__".toList ++ b)) ∧
      w = ofText a ++ .param name :: v ∧ Marked nonce ps b v ∧ ps.Registered name ∧
      b.length < t.length := by
  have hne : ps.markerPrefix ≠ [] := by
    rw [hs.markerPrefix]
    simp
  induction h with
  | nil =>
    refine .inl ⟨?_, rfl⟩
    rw [Mcp.splitOnce, if_neg hne]
  | @char c t w fresh rest ih =>
    rw [splitOnce_later (rest.not_begun hn hs)]
    rcases ih with ⟨hnone, hw⟩ | ⟨a, name, b, v, hsome, hw, hb, hname, hlt⟩
    · refine .inl ⟨?_, ?_⟩
      · rw [hnone]
        rfl
      · rw [hw]
        rfl
    · refine .inr ⟨c :: a, name, b, v, ?_, ?_, hb, hname, Nat.lt_succ_of_lt hlt⟩
      · rw [hsome]
        rfl
      · rw [hw]
        rfl
  | @marker name t w registered rest ih =>
    have htext : ps.markerOf name ++ t = ps.markerPrefix ++ (name ++ ("__" ++ t)) := by
      rw [markerOf, append_assoc, append_assoc]
    refine .inr ⟨[], name, t, w, ?_, rfl, rest, registered, ?_⟩
    · obtain ⟨c, cs, hcons⟩ := exists_cons_of_ne_nil hne
      rw [htext, hcons, cons_append]
      exact splitOnce_here rfl
    · rw [markerOf]
      simp
      omega

end Nonce

theorem adds_quoteLiteral (t : Text) : Adds (CurlShell.posix.quoteLiteral t) (ofText t) :=
  Adds.singleQuoted t

section Render

variable {nonce : Text} {ps : Placeholders} (hn : IsNonce nonce) (hs : ps.Sound nonce)

include hn hs

omit hn in
theorem Placeholders.Sound.renderFrom (fuel : Nat) (literal rest : Text) :
    (renderFrom .posix ps fuel literal rest = [] ∧ markedFrom ps fuel literal rest = []) ∨
      Adds (renderFrom .posix ps fuel literal rest) (markedFrom ps fuel literal rest) := by
  induction fuel generalizing literal rest with
  | zero => exact .inl ⟨rfl, rfl⟩
  | succ fuel ih =>
    rw [Mcp.renderFrom, markedFrom]
    cases Mcp.splitOnce ps.markerPrefix rest with
    | none =>
      dsimp only
      by_cases hempty : literal ++ rest = []
      · rw [if_pos hempty, hempty]
        exact .inl ⟨rfl, rfl⟩
      · rw [if_neg hempty]
        exact .inr (adds_quoteLiteral _)
    | some split =>
      dsimp only
      cases hname : (Mcp.splitOnce "__" split.2).filter fun s => ps.hasGeneratedMarker s.1 with
      | none => exact ih _ _
      | some found =>
        have hknown := (Option.filter_eq_some_iff.mp hname).2
        rw [Placeholders.hasGeneratedMarker, Bool.and_eq_true] at hknown
        obtain ⟨item, hitem, hsame⟩ := Placeholders.byName_isSome.mp hknown.2
        have hparam : Adds (CurlShell.posix.envValue found.1) [.param found.1] :=
          .param (hsame ▸ (hs.names item hitem).isName)
        have htail : Adds (CurlShell.posix.envValue found.1 ++ Mcp.renderFrom .posix ps fuel [] found.2)
            (.param found.1 :: markedFrom ps fuel [] found.2) := by
          rcases ih [] found.2 with ⟨hnil, hword⟩ | hrest
          · rw [hnil, hword, append_nil]
            exact hparam
          · exact hparam.append hrest
        refine .inr ?_
        dsimp only
        rw [append_assoc]
        by_cases hempty : literal ++ split.1 = []
        · rw [if_pos hempty, hempty]
          exact htail
        · rw [if_neg hempty]
          exact (adds_quoteLiteral _).append htail

theorem Marked.markedFrom : ∀ (fuel : Nat) {t : Text} {w : Word} (literal : Text),
    Marked nonce ps t w → t.length < fuel → markedFrom ps fuel literal t = ofText literal ++ w := by
  intro fuel
  induction fuel with
  | zero => exact fun _ _ hlt => absurd hlt (Nat.not_lt_zero _)
  | succ fuel ih =>
    intro t w literal h hlt
    rw [Mcp.markedFrom]
    rcases h.splitOnce hn hs with ⟨hnone, rfl⟩ | ⟨a, name, b, v, hsome, rfl, hb, hname, hshort⟩
    · rw [hnone]
      exact map_append
    · obtain ⟨item, hitem, rfl⟩ := hname
      have henv := hs.names item hitem
      have hknown : ps.hasGeneratedMarker item.name = true := by
        rw [Placeholders.hasGeneratedMarker, henv.valid, Bool.true_and]
        exact Placeholders.byName_isSome.mpr ⟨item, hitem, rfl⟩
      rw [hsome]
      dsimp only
      rw [henv.solid.splitOnce b, filter_some, if_pos hknown]
      dsimp only
      rw [ih [] hb (by omega), ofText, map_append, append_assoc]
      rfl

theorem Marked.adds (h : Marked nonce ps t w) : Adds (renderWithMarkers t .posix ps) w := by
  have hword : markedWord ps t = w := h.markedFrom hn hs (t.length + 1) [] (Nat.lt_succ_self _)
  rw [renderWithMarkers, ← hword]
  rcases hs.renderFrom (t.length + 1) [] t with ⟨hnil, hempty⟩ | hadds
  · rw [if_pos hnil, markedWord, hempty]
    exact adds_quoteLiteral []
  · rw [if_neg hadds.ne_nil]
    exact hadds

omit hn hs in
theorem expandFrom_skip (env : Text → Text) : ∀ (k : Nat) (t : Text),
    ps.expandFrom env k t = ps.expandFrom env 0 (t.drop k) := by
  intro k
  induction k with
  | zero => exact fun _ => rfl
  | succ k ih =>
    intro t
    cases t with
    | nil => rfl
    | cons c t => exact ih t

theorem Marked.expand (env : Text → Text) (h : Marked nonce ps t w) :
    ps.expandFrom env 0 t = Shell.expand env w := by
  induction h with
  | nil => rfl
  | @char c t w fresh rest ih =>
    have hnone : ps.markerAt (c :: t) = none := by
      rw [Placeholders.markerAt, map_eq_none_iff, find?_eq_none]
      intro item _ hbegun
      rw [List.isPrefixOf_iff_prefix, markerOf, append_assoc] at hbegun
      exact rest.not_begun hn hs ((prefix_append _ _).trans hbegun)
    rw [Placeholders.expandFrom, hnone]
    exact congrArg (c :: ·) ih
  | @marker name t w registered rest ih =>
    obtain ⟨item, hitem, rfl⟩ := registered
    have hsolid := (hs.names item hitem).solid
    have hname : ps.markerAt (ps.markerOf item.name ++ t) = some item.name := by
      have hfound : ∃ found, ps.items.find? (fun found =>
          (ps.markerOf found.name).isPrefixOf (ps.markerOf item.name ++ t)) = some found := by
        rw [← isSome_iff_exists, find?_isSome]
        exact ⟨item, hitem, isPrefixOf_iff_prefix.mpr (prefix_append _ _)⟩
      obtain ⟨found, hfound⟩ := hfound
      have hbegun := find?_some hfound
      rw [List.isPrefixOf_iff_prefix, markerOf, markerOf, append_assoc,
        append_assoc, append_assoc, prefix_append_right_inj] at hbegun
      obtain ⟨rest', hrest'⟩ := hbegun
      -- Both names end at the first two underscores.
      have hsame := congrArg (Mcp.splitOnce "__") hrest'
      rw [append_assoc, (hs.names found (mem_of_find?_eq_some hfound)).solid.splitOnce,
        hsolid.splitOnce, some_inj] at hsame
      rw [Placeholders.markerAt, hfound, map_some, (Prod.mk.inj hsame).1]
    obtain ⟨c, cs, hcons⟩ : ∃ c cs, ps.markerOf item.name = c :: cs := by
      rw [markerOf, hs.markerPrefix]
      exact ⟨_, _, rfl⟩
    have hlen : cs.length = (ps.markerOf item.name).length - 1 := by
      rw [hcons]
      rfl
    rw [hcons, cons_append, Placeholders.expandFrom, ← cons_append, ← hcons, hname]
    dsimp only
    rw [expandFrom_skip, ← hlen, drop_left, ih]
    rfl

end Render

end AiProxy.Mcp
