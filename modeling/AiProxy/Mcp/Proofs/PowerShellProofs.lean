import AiProxy.Lib.PowerShell
import AiProxy.Mcp.Proofs.MarkerProofs

/-!
# Arguments for PowerShell

The quoting doubles `'` and no other quote. A typographic quote in a literal part ends the string
early or takes another quote with it, and by their number nothing later makes up for that.
-/

namespace AiProxy.Mcp

open PowerShell
open Shell (Word ofText)
open CurlShell (replaceQuotes)

def isTypographic (c : Char) : Bool := isQuote c && c != '\''

variable {ps : Placeholders} {out : Text} {w : Word}

def quotedPart (t : Text) : Text := if t = [] then [] else CurlShell.powershell.quoteLiteral t

theorem lexFrom_replaceQuotes {t : Text} (h : ∀ c ∈ t, isTypographic c = false) (rest : Text) :
    lexFrom .verbatim (replaceQuotes t "''" ++ '\'' :: rest) =
      (lexFrom .closing rest).map (ofText t ++ ·) := by
  induction t with
  | nil => exact Option.map_id'.symm
  | cons c t ih =>
    have ih := ih fun d hd => h d (List.mem_cons_of_mem c hd)
    have hmap : ((lexFrom .closing rest).map (ofText t ++ ·)).map (.char c :: ·) =
        (lexFrom .closing rest).map (ofText (c :: t) ++ ·) := by
      rw [Option.map_map]
      rfl
    rw [replaceQuotes, List.flatMap_cons, ← replaceQuotes, List.append_assoc]
    by_cases hquote : c = '\''
    · subst hquote
      rw [← hmap, ← ih]
      rfl
    · have hplain : isQuote c = false := by simpa [isTypographic, hquote] using h c
      rw [if_neg hquote, List.singleton_append, lexFrom, hplain, if_neg Bool.false_ne_true, ih, hmap]

theorem countP_replaceQuotes (t : Text) :
    (replaceQuotes t "''").countP isQuote + t.countP isTypographic =
      2 * t.countP isQuote := by
  induction t with
  | nil => rfl
  | cons c t ih =>
    rw [replaceQuotes, List.flatMap_cons, ← replaceQuotes, List.countP_append,
      List.countP_cons, List.countP_cons]
    by_cases hquote : c = '\''
    · subst hquote
      have hdouble : "''".toList.countP isQuote = 2 := by decide
      have hone : isQuote '\'' = true ∧ isTypographic '\'' = false := by decide
      rw [if_pos rfl, hone.1, hone.2, if_pos rfl, if_neg Bool.false_ne_true]
      omega
    · have hsame : isTypographic c = isQuote c := by simp [isTypographic, hquote]
      rw [if_neg hquote, hsame, List.countP_singleton]
      split
      · omega
      · omega

/-- The text is the word, if its quotes can be told apart; their number is right in any case. -/
structure Renders (out : Text) (w : Word) : Prop where
  quotes : out.countP isQuote + (written w).countP isTypographic =
    2 * (written w).countP isQuote + 2 * runs false w
  lexes : (∀ c ∈ written w, isTypographic c = false) → lexFrom .between out = some w

theorem Renders.part (h : Renders out w) (hruns : runs true w = runs false w)
    (hhead : ∀ c ∈ out.head?, isQuote c = false) (t : Text) :
    Renders (quotedPart t ++ out) (ofText t ++ w) := by
  have hwritten : written (ofText t ++ w) = t ++ written w := by
    simp [written, ofText]
  cases t with
  | nil => exact h
  | cons c t =>
    have hlex : quotedPart (c :: t) ++ out =
        '\'' :: (replaceQuotes (c :: t) "''" ++ '\'' :: out) := by
      rw [quotedPart, if_neg (List.cons_ne_nil c t), CurlShell.quoteLiteral, List.cons_append,
        List.append_assoc, List.singleton_append]
    have hopen : isQuote '\'' = true := by decide
    have hbegun : ∀ t : Text, runs true (ofText t ++ w) = runs false w := by
      intro t
      induction t with
      | nil => exact hruns
      | cons c t ih =>
        rw [← ih]
        exact zero_add _
    have hone : runs false (ofText (c :: t) ++ w) = 1 + runs false w := by
      rw [← hbegun t]
      rfl
    constructor
    · have hreplaced := countP_replaceQuotes (c :: t)
      have hquotes := h.quotes
      rw [hlex, hwritten, List.countP_cons, List.countP_append, List.countP_cons, hopen,
        if_pos rfl, List.countP_append, List.countP_append]
      omega
    · intro hplain
      rw [hwritten] at hplain
      rw [hlex, lexFrom, lexFrom_replaceQuotes fun d hd =>
        hplain d (List.mem_append_left _ hd), lexFrom_closing hhead,
        h.lexes fun d hd => hplain d (List.mem_append_right _ hd)]
      rfl

theorem Renders.env (h : Renders out w) {name : Text} (hname : isValidEnvName name = true) :
    Renders (CurlShell.powershell.envValue name ++ out) (.param name :: w) := by
  have hchars := all_isNameChar hname
  have hread : envName ("$env:" ++ name) = some name := by
    have hempty : name.isEmpty = false := List.isEmpty_eq_false_iff.mpr (isValidEnvName_iff.mp hname).1
    have hdrop : ("$env:" ++ name).drop 5 = name := rfl
    rw [envName, hdrop, hempty, hchars]
    rfl
  have htext : CurlShell.powershell.envValue name ++ out =
      '"' :: ("$env:" ++ name ++ '"' :: out) := by
    show "\"$env:" ++ name ++ ['"'] ++ out = _
    rw [List.append_assoc]
    rfl
  rw [htext]
  constructor
  · have hnone : name.countP isQuote = 0 := List.countP_eq_zero.mpr fun c hc hquote => by
      have hchar := List.all_eq_true.mp hchars c hc
      rw [isNameChar_of_isQuote hquote] at hchar
      cases hchar
    have hrest : ('"' :: ("$env:" ++ name ++ '"' :: out)).countP isQuote =
        name.countP isQuote + out.countP isQuote := by
      rw [List.append_assoc, ← List.cons_append, List.countP_append, List.countP_append]
      exact zero_add _
    rw [hrest, hnone, zero_add]
    exact h.quotes
  · intro hplain
    have hquote : '"' ∉ "$env:" ++ name := by
      refine List.not_mem_append (by decide) fun hmem => ?_
      exact absurd (List.all_eq_true.mp hchars _ hmem) (by decide)
    rw [lexFrom, lexFrom_expandable hquote, List.nil_append, hread, h.lexes hplain]
    rfl

theorem renders_renderFrom (fuel : Nat) (literal rest : Text) :
    Renders (renderFrom .powershell ps fuel literal rest) (markedFrom ps fuel literal rest) := by
  have hnil : Renders [] [] := ⟨rfl, fun _ => rfl⟩
  induction fuel generalizing literal rest with
  | zero => exact hnil
  | succ fuel ih =>
    rw [renderFrom, markedFrom]
    cases splitOnce ps.markerPrefix rest with
    | none => simpa [quotedPart] using hnil.part rfl (by simp) (literal ++ rest)
    | some split =>
      dsimp only
      cases hname : (splitOnce "__" split.2).filter fun s => ps.hasGeneratedMarker s.1 with
      | none => exact ih _ _
      | some found =>
        have hvalid := (Option.filter_eq_some_iff.mp hname).2
        rw [Placeholders.hasGeneratedMarker, Bool.and_eq_true] at hvalid
        have hpart := ((ih [] found.2).env hvalid.1).part rfl
          (fun c hc => by obtain rfl := Option.some.inj hc; decide) (literal ++ split.1)
        rw [← List.append_assoc] at hpart
        exact hpart

/-- Rendered for PowerShell, a value is read as itself, with references to the variables for the
generated markers, exactly if no literal part of it has a typographic quote. -/
theorem powershell_argument_complete_iff (ps : Placeholders) (value : Text) :
    lex (renderWithMarkers value .powershell ps) = some (markedWord ps value) ↔
      ∀ c ∈ written (markedWord ps value), isTypographic c = false := by
  obtain ⟨hquotes, hlexes⟩ := @renders_renderFrom ps (value.length + 1) [] value
  rw [← markedWord] at hquotes hlexes
  rw [renderWithMarkers]
  constructor
  · intro hlex
    have hle : (written (markedWord ps value)).countP isTypographic ≤
        (written (markedWord ps value)).countP isQuote :=
      List.countP_mono_left fun c _ hc => (Bool.and_eq_true_iff.mp hc).1
    have hbound := lexFrom_quotes _ hlex
    rw [Mode.delimiters] at hbound
    have hzero : (written (markedWord ps value)).countP isTypographic = 0 := by
      split at hbound
      · next hnil =>
        rw [hnil, List.countP_nil] at hquotes
        omega
      · omega
    exact fun c hc => by simpa using List.countP_eq_zero.mp hzero c hc
  · intro hplain
    split
    · next hnil =>
      rw [← hlexes hplain, hnil]
      rfl
    · exact hlexes hplain

theorem apostrophe_ends_argument :
    lex (renderWithMarkers "it’s" .powershell (.new [])) = none := by
  decide

end AiProxy.Mcp
