import AiProxy.Lib.Decimal
import AiProxy.Mcp.Body
import AiProxy.Mcp.PathMatches

/-!
# Texts of JSON paths

What `render_json_path` writes is read back by `parse_json_path`, unless a key is empty: of such a key
only the dot is written.
-/

namespace AiProxy.Mcp

open List
open Json (Bytes)
open Utf8 (chars encode)

/-- What may follow a step in the text of a place. -/
def Continues (rest : Text) : Prop := ∀ c ∈ rest.head?, c = '.' ∨ c = '['

theorem appendKeyPath_eq (place : Text) (key : Bytes) :
    appendKeyPath place key = place ++ appendKeyPath [] key := by
  unfold appendKeyPath
  split <;> simp

theorem indexPath_eq (place : Text) (index : Nat) :
    indexPath place index = place ++ indexPath [] index := rfl

theorem continues_appendKeyPath (key : Bytes) (rest : Text) :
    Continues (appendKeyPath [] key ++ rest) := by
  unfold appendKeyPath
  split
  · rintro c hc
    cases hc
    exact .inl rfl
  · rintro c hc
    cases hc
    exact .inr rfl

theorem continues_indexPath (index : Nat) (rest : Text) :
    Continues (indexPath [] index ++ rest) := by
  rintro c hc
  cases hc
  exact .inr rfl

theorem takeWhile_append_continues {f : Char → Bool} (hdot : f '.' = false) (hopen : f '[' = false)
    {t rest : Text} (ht : t.all f = true) (hrest : Continues rest) :
    (t ++ rest).takeWhile f = t := by
  rw [takeWhile_append_of_pos (all_eq_true.mp ht)]
  cases rest with
  | nil => simp
  | cons c rest =>
    have hc : f c = false := by
      rcases hrest c rfl with rfl | rfl
      · exact hdot
      · exact hopen
    rw [takeWhile_cons_of_neg (by simp [hc]), append_nil]

theorem parseQuoted_escapeKey (output key rest : Text) :
    parseQuoted '\'' false output (escapeKey key ++ '\'' :: ']' :: rest) =
      .ok (.key (encode (output ++ key)), rest) := by
  induction key generalizing output with
  | nil => simp [escapeKey, parseQuoted]
  | cons c key ih =>
    rw [escapeKey, flatMap_cons, ← escapeKey]
    by_cases hback : c = '\\'
    · simp [hback, parseQuoted, ih]
    by_cases hquote : c = '\''
    · simp [hquote, parseQuoted, ih]
    simp [hback, hquote, parseQuoted, ih]

theorem appendKeyPath_inj {k k' : Bytes} {s t : Text}
    (h : appendKeyPath [] k ++ s = appendKeyPath [] k' ++ t) (hs : Continues s) (ht : Continues t) :
    chars k = chars k' ∧ s = t := by
  unfold appendKeyPath at h
  by_cases hk : isPlainKey (chars k) = true
  · by_cases hk' : isPlainKey (chars k') = true
    · rw [if_pos hk, if_pos hk'] at h
      have htail : chars k ++ s = chars k' ++ t := (List.cons.inj h).2
      have hkeys : chars k = chars k' := by
        rw [← takeWhile_append_continues (by decide) (by decide) hk hs, htail,
          takeWhile_append_continues (by decide) (by decide) hk' ht]
      rw [hkeys] at htail
      exact ⟨hkeys, append_cancel_left htail⟩
    · rw [if_pos hk, if_neg hk'] at h
      exact absurd (List.cons.inj h).1 (by decide)
  · by_cases hk' : isPlainKey (chars k') = true
    · rw [if_neg hk, if_pos hk'] at h
      exact absurd (List.cons.inj h).1 (by decide)
    · rw [if_neg hk, if_neg hk'] at h
      -- Reading the quoted key gives the key and the rest.
      have htail : escapeKey (chars k) ++ '\'' :: ']' :: s =
          escapeKey (chars k') ++ '\'' :: ']' :: t := by
        simpa using h
      have hread := congrArg (parseQuoted '\'' false []) htail
      rw [parseQuoted_escapeKey, parseQuoted_escapeKey, Except.ok.injEq, Prod.mk.injEq,
        JsonPathSegment.key.injEq] at hread
      have hkeys := congrArg chars hread.1
      rw [Utf8.chars_encode, Utf8.chars_encode] at hkeys
      exact ⟨hkeys, hread.2⟩

theorem indexPath_inj {i j : Nat} {s t : Text} (h : indexPath [] i ++ s = indexPath [] j ++ t) :
    i = j ∧ s = t := by
  have htail : (Nat.repr i).toList ++ ']' :: s = (Nat.repr j).toList ++ ']' :: t := by
    simpa [indexPath] using h
  have htake : ∀ (n : Nat) (u : Text),
      ((Nat.repr n).toList ++ ']' :: u).takeWhile Char.isDigit = (Nat.repr n).toList := by
    intro n u
    rw [takeWhile_append_of_pos fun c hc => Decimal.isDigit_of_mem_repr hc,
      takeWhile_cons_of_neg (by decide), append_nil]
  have hrepr : (Nat.repr i).toList = (Nat.repr j).toList := by
    rw [← htake i s, htail, htake j t]
  have hij : i = j := Decimal.toList_repr_inj hrepr
  rw [hrepr] at htail
  exact ⟨hij, (List.cons.inj (append_cancel_left htail)).2⟩

/-! ## Reading back -/

/-- What the types of the code allow: a key is a `String`, an index a `usize`. -/
def JsonPathSegment.Valid : JsonPathSegment → Prop
  | .key name => IsText name
  | .index i => i < 2 ^ 64
  | .wildcard => True

theorem plain_char {c : Char} (h : (c.isAlphanum || c == '_' || c == '-') = true) :
    (c ≠ '.' && c ≠ '[') = true ∧ isControl c = false ∧ isWhitespace c = false := by
  have hlt : c.toNat < 123 := by
    simp only [Bool.or_eq_true, beq_iff_eq] at h
    rcases h with (h | rfl) | rfl
    · exact Utf8.toNat_lt_of_isAlphanum h
    · decide
    · decide
  have hall : ∀ n < 123,
      ((Char.ofNat n).isAlphanum || Char.ofNat n == '_' || Char.ofNat n == '-') = true →
      (Char.ofNat n ≠ '.' && Char.ofNat n ≠ '[') = true ∧ isControl (Char.ofNat n) = false ∧
        isWhitespace (Char.ofNat n) = false := by
    decide +kernel
  have hc := hall c.toNat hlt
  rw [Char.ofNat_toNat] at hc
  exact hc h

theorem parseIndex_repr {index : Nat} (h : index < 2 ^ 64) (rest : Text) :
    parseIndex ((Nat.repr index).toList ++ ']' :: rest) = .ok (.index index, rest) := by
  have hdigits := @Decimal.isDigit_of_mem_repr index
  have hne : ∀ c ∈ (Nat.repr index).toList, decide (c ≠ ']') = true := by
    intro c hc
    have hdigit := hdigits hc
    refine decide_eq_true ?_
    rintro rfl
    cases hdigit
  have hvalue : Nat.ofDigitChars 10 (Nat.repr index).toList 0 = index := by
    rw [Nat.toList_repr, Nat.ofDigitChars_ten_toDigits]
  have hitem : ¬ ((Nat.repr index).toList = [] ∨ ¬ (Nat.repr index).toList.all Char.isDigit) := by
    rw [not_or, not_not]
    exact ⟨Decimal.toList_repr_ne_nil index, all_eq_true.mpr fun c => hdigits⟩
  rw [parseIndex, takeWhile_append_of_pos hne, dropWhile_append_of_pos hne,
    takeWhile_cons_of_neg (by decide), dropWhile_cons_of_neg (by decide), append_nil]
  simp only [if_neg hitem, hvalue, if_pos h]

theorem parseSegment_renderSegment {s : JsonPathSegment} (hvalid : s.Valid) (hs : s ≠ .key [])
    {rest : Text} (hrest : Continues rest) :
    parseSegment (renderSegment s ++ rest) = .ok (s, rest) := by
  cases s with
  | wildcard => rfl
  | index index =>
    obtain ⟨c, digits, hrepr⟩ := exists_cons_of_ne_nil (Decimal.toList_repr_ne_nil index)
    have hdigit : c.isDigit = true := Decimal.isDigit_of_mem_repr (by rw [hrepr]; exact mem_cons_self)
    have hstar : c ≠ '*' := by
      rintro rfl
      cases hdigit
    have hquote : ¬ (c = '\'' ∨ c = '"') := by
      rintro (rfl | rfl) <;> cases hdigit
    have hread := parseIndex_repr hvalid rest
    have htext : renderSegment (.index index) ++ rest = '[' :: ((Nat.repr index).toList ++ ']' :: rest) := by
      simp [renderSegment, indexPath]
    rw [htext]
    rw [hrepr] at hread ⊢
    show (if c = '*' then _ else _) = _
    rw [if_neg hstar, if_neg hquote]
    exact hread
  | key key =>
    have hencode : encode (chars key) = key := hvalid
    have hkey : chars key ≠ [] := by
      intro hnil
      rw [hnil] at hencode
      exact hs (by rw [← hencode]; rfl)
    rw [renderSegment, appendKeyPath]
    split
    · next hplain =>
      have hchars := all_eq_true.mp hplain
      have htake := takeWhile_append_continues (f := fun c => c ≠ '.' && c ≠ '[') (by decide)
        (by decide) (all_eq_true.mpr fun c hc => (plain_char (hchars c hc)).1) hrest
      have hcontrol : (chars key).any isControl = false :=
        any_eq_false.mpr fun c hc => by simp [(plain_char (hchars c hc)).2.1]
      rw [nil_append, cons_append, parseSegment, htake, if_neg hkey, hcontrol,
        if_neg Bool.false_ne_true, drop_left, hencode]
    · have htext : [] ++ "['".toList ++ escapeKey (chars key) ++ "']".toList ++ rest =
          '[' :: '\'' :: (escapeKey (chars key) ++ '\'' :: ']' :: rest) := by
        simp
      rw [htext]
      show parseQuoted '\'' false [] _ = _
      rw [parseQuoted_escapeKey, nil_append, hencode]

theorem continues_renderSegment (s : JsonPathSegment) (rest : Text) :
    Continues (renderSegment s ++ rest) := by
  cases s with
  | key key => exact continues_appendKeyPath key rest
  | index index => exact continues_indexPath index rest
  | wildcard =>
    rintro c ⟨⟩
    exact .inr rfl

theorem renderSegment_concat (s : JsonPathSegment) :
    ∃ a c, renderSegment s = a ++ [c] ∧ isWhitespace c = false := by
  cases s with
  | wildcard => exact ⟨"[*", ']', rfl, by decide⟩
  | index index =>
    exact ⟨'[' :: (Nat.repr index).toList, ']', by simp [renderSegment, indexPath], by decide⟩
  | key key =>
    rw [renderSegment, appendKeyPath]
    split
    · next hplain =>
      rcases eq_nil_or_concat' (chars key) with hnil | ⟨a, c, hkey⟩
      · exact ⟨[], '.', by rw [hnil], by decide⟩
      · have hc := all_eq_true.mp hplain c (by rw [hkey]; exact mem_concat_self)
        exact ⟨'.' :: a, c, by rw [hkey]; rfl, (plain_char hc).2.2⟩
    · exact ⟨"['" ++ escapeKey (chars key) ++ ['\''], ']', by simp, by decide⟩

theorem trim_renderJsonPath (segments : List JsonPathSegment) :
    trim (renderJsonPath segments) = renderJsonPath segments := by
  obtain ⟨a, c, hlast, hc⟩ : ∃ a c, renderJsonPath segments = a ++ [c] ∧ isWhitespace c = false := by
    rcases eq_nil_or_concat' segments with rfl | ⟨init, s, rfl⟩
    · exact ⟨[], '$', rfl, by decide⟩
    · obtain ⟨a, c, hs, hc⟩ := renderSegment_concat s
      refine ⟨renderJsonPath init ++ a, c, ?_, hc⟩
      simp [renderJsonPath, hs]
  have hhead : (renderJsonPath segments).dropWhile isWhitespace = renderJsonPath segments :=
    dropWhile_cons_of_neg (by decide)
  rw [trim, hhead, hlast, reverse_append, reverse_singleton, singleton_append,
    dropWhile_cons_of_neg (by simp [hc]), reverse_cons, reverse_reverse]

theorem parseSegments_render {segments : List JsonPathSegment} (h : ∀ s ∈ segments, s.Valid) :
    ∀ {n : Nat}, (segments.flatMap renderSegment).length ≤ n →
      parseSegments n (segments.flatMap renderSegment) =
        if .key [] ∈ segments then .error "JSON path contains an empty property segment."
        else .ok segments := by
  induction segments with
  | nil =>
    intro n _
    cases n with
    | zero | succ n => rfl
  | cons s segments ih =>
    intro n hn
    have hrest : Continues (segments.flatMap renderSegment) := by
      cases segments with
      | nil =>
        rintro c ⟨⟩
      | cons t segments => exact continues_renderSegment t _
    obtain ⟨a, c, hs, -⟩ := renderSegment_concat s
    rw [flatMap_cons] at hn ⊢
    have hne : renderSegment s ++ segments.flatMap renderSegment ≠ [] := by simp [hs]
    have hlen : (segments.flatMap renderSegment).length < n := by
      rw [hs] at hn
      simp only [length_append, length_singleton] at hn
      omega
    obtain ⟨n, rfl⟩ := Nat.exists_eq_add_one_of_ne_zero (show n ≠ 0 by omega)
    have hread := ih (fun t ht => h t (mem_cons_of_mem _ ht)) (Nat.lt_succ_iff.mp hlen)
    rw [parseSegments, if_neg hne]
    by_cases hempty : s = .key []
    · have hkey : parseSegment ('.' :: segments.flatMap renderSegment) =
          .error "JSON path contains an empty property segment." := by
        have htake := takeWhile_append_continues (f := fun c => c ≠ '.' && c ≠ '[') (t := [])
          (by decide) (by decide) rfl hrest
        rw [nil_append] at htake
        rw [parseSegment, htake, if_pos rfl]
      rw [hempty]
      show (parseSegment ('.' :: segments.flatMap renderSegment)).bind _ = _
      rw [hkey]
      rfl
    · rw [parseSegment_renderSegment (h s mem_cons_self) hempty hrest]
      show (parseSegments n (segments.flatMap renderSegment)).bind _ = _
      rw [hread]
      by_cases hmem : .key [] ∈ segments
      · rw [if_pos hmem, if_pos (mem_cons_of_mem _ hmem)]
        rfl
      · rw [if_neg hmem, if_neg (by simp [hmem, Ne.symm hempty])]
        rfl

/-- A rendered path is read back as its segments exactly if no key is empty. -/
theorem rendered_path_parses_iff {segments : List JsonPathSegment}
    (h : ∀ s ∈ segments, s.Valid) :
    parseJsonPath (renderJsonPath segments) = .ok segments ↔ .key [] ∉ segments := by
  rw [parseJsonPath, trim_renderJsonPath]
  show parseSegments _ _ = _ ↔ _
  rw [parseSegments_render h le_rfl]
  by_cases hmem : .key [] ∈ segments
  · simp [hmem]
  · simp [hmem]

theorem empty_key_rejected : parseJsonPath (renderJsonPath [.key []]) =
    .error "JSON path contains an empty property segment." := rfl

theorem rendered_path_parses_iff_quoted :
    parseJsonPath (renderJsonPath [.key (encode "it's"), .index 7, .wildcard]) =
      .ok [.key (encode "it's"), .index 7, .wildcard] := by
  refine (rendered_path_parses_iff ?_).mpr (by decide)
  simp [JsonPathSegment.Valid, IsText, Utf8.chars_encode]

end AiProxy.Mcp
