import AiProxy.Lib.PosixShell

/-!
# String tokens of PowerShell

Verbatim strings, which any of five quotes open and close, and expandable strings that are one
environment variable. In a verbatim string two quotes in a row stand for one. Anything else between
the strings gives no word.
-/

namespace AiProxy.PowerShell

open Option List
open Shell (Word)

def isQuote (c : Char) : Bool := "'‘’‚‛".toList.contains c

theorem isNameChar_of_isQuote {c : Char} (h : isQuote c = true) : Shell.isNameChar c = false := by
  have hall : "'‘’‚‛".toList.all (fun c => !Shell.isNameChar c) = true := by decide
  simpa using all_eq_true.mp hall c (contains_iff_mem.mp h)

/-- `closing` is after a quote in a verbatim string, which ends it unless another one follows. -/
inductive Mode where
  | between
  | verbatim
  | closing
  | expandable (read : List Char)

def envName (read : List Char) : Option (List Char) :=
  let name := read.drop 5
  if "$env:".toList.isPrefixOf read && !name.isEmpty && name.all Shell.isNameChar then some name
  else none

def lexFrom : Mode → List Char → Option Word
  | .between, [] => some []
  | .verbatim, [] => none
  | .closing, [] => some []
  | .expandable _, [] => none
  | .between, c :: t =>
    if isQuote c then lexFrom .verbatim t
    else if c = '"' then lexFrom (.expandable []) t
    else none
  | .verbatim, c :: t =>
    if isQuote c then lexFrom .closing t else (lexFrom .verbatim t).map (.char c :: ·)
  | .closing, c :: t =>
    if isQuote c then (lexFrom .verbatim t).map (.char c :: ·)
    else if c = '"' then lexFrom (.expandable []) t
    else none
  | .expandable read, c :: t =>
    if c = '"' then
      (envName read).bind fun name => (lexFrom .between t).map (.param name :: ·)
    else lexFrom (.expandable (read ++ [c])) t

def lex (t : List Char) : Option Word := lexFrom .between t

theorem lexFrom_closing {t : List Char} (h : ∀ c ∈ t.head?, isQuote c = false) :
    lexFrom .closing t = lexFrom .between t := by
  cases t with
  | nil => rfl
  | cons c t => rw [lexFrom, lexFrom, h c rfl, if_neg Bool.false_ne_true, if_neg Bool.false_ne_true]

theorem lexFrom_expandable {u : List Char} (h : '"' ∉ u) (read t : List Char) :
    lexFrom (.expandable read) (u ++ '"' :: t) =
      (envName (read ++ u)).bind fun name => (lexFrom .between t).map (.param name :: ·) := by
  induction u generalizing read with
  | nil => rw [nil_append, lexFrom, if_pos rfl, append_nil]
  | cons c u ih =>
    rw [mem_cons, not_or] at h
    rw [cons_append, lexFrom, if_neg (Ne.symm h.1), ih h.2, append_assoc]
    rfl

/-- The characters of a word. -/
def written (w : Word) : List Char :=
  w.filterMap fun
    | .char c => some c
    | .param _ => none

/-- The runs of characters in a word, without the one that has begun before. -/
def runs : Bool → Word → Nat
  | _, [] => 0
  | begun, .char _ :: w => (if begun then 0 else 1) + runs true w
  | _, .param _ :: w => runs false w

theorem runs_true (w : Word) : runs true w ≤ runs false w ∧ runs false w ≤ runs true w + 1 := by
  cases w with
  | nil => exact ⟨Nat.le_refl _, Nat.zero_le _⟩
  | cons x w =>
    cases x with
    | char c => simp [runs, Nat.add_comm]
    | param name => simp [runs]

/-- What the strings that are open or yet to come need for their ends. -/
def Mode.delimiters (mode : Mode) (w : Word) : Nat :=
  match mode with
  | .between | .expandable _ => 2 * runs false w
  | .verbatim => 2 * runs true w + 1
  | .closing => 2 * runs true w

theorem lexFrom_quotes (t : List Char) {mode : Mode} {w : Word} (h : lexFrom mode t = some w) :
    2 * (written w).countP isQuote + mode.delimiters w ≤ t.countP isQuote := by
  induction t generalizing mode w with
  | nil =>
    cases mode with
    | between | closing =>
      obtain rfl := Option.some.inj h
      exact Nat.le_refl _
    | verbatim | expandable read => cases h
  | cons c t ih =>
    have hruns := runs_true w
    rw [countP_cons]
    cases mode with
    | between =>
      rw [lexFrom] at h
      split at h
      · have := ih h
        simp_all only [Mode.delimiters, if_true]
        omega
      · split at h
        · have := ih h
          simp_all only [Mode.delimiters]
          omega
        · cases h
    | closing =>
      rw [lexFrom] at h
      split at h
      · obtain ⟨w, hw, rfl⟩ := map_eq_some_iff.mp h
        have := ih hw
        simp_all [Mode.delimiters, written, runs]
        omega
      · split at h
        · have := ih h
          simp_all only [Mode.delimiters]
          omega
        · cases h
    | verbatim =>
      rw [lexFrom] at h
      split at h
      · have := ih h
        simp_all only [Mode.delimiters, if_true]
        omega
      · obtain ⟨w, hw, rfl⟩ := map_eq_some_iff.mp h
        have := ih hw
        simp_all [Mode.delimiters, written, runs]
    | expandable read =>
      rw [lexFrom] at h
      split at h
      · obtain ⟨name, -, hname⟩ := bind_eq_some_iff.mp h
        obtain ⟨w, hw, rfl⟩ := map_eq_some_iff.mp hname
        have := ih hw
        simp_all [Mode.delimiters, written, runs]
        omega
      · have := ih h
        simp_all only [Mode.delimiters]
        omega

end AiProxy.PowerShell
