import Mathlib.Data.List.Forall2

/-!
# Words of the POSIX shell

The quoting rules of the shell command language (quote removal, parameter expansion and field
splitting), for simple commands. A character that stands for itself, or is quoted, gives itself; a
parameter between double quotes is expanded in place, and what it gives is neither split nor matched
against file names. Where a shell would do anything else, the text has no words here.
-/

namespace AiProxy.Shell

open List

/-- A part of a word after quote removal. -/
inductive Piece where
  | char (c : Char)
  /-- The value of a parameter, between double quotes. -/
  | param (name : List Char)

abbrev Word := List Piece

def expand (env : List Char → List Char) (w : Word) : List Char :=
  w.flatMap fun
    | .char c => [c]
    | .param name => env name

def ofText (t : List Char) : Word := t.map .char

theorem expand_ofText (env : List Char → List Char) (t : List Char) :
    expand env (ofText t) = t := by
  induction t with
  | nil => rfl
  | cons c t ih => exact congrArg (c :: ·) ih

/-! ## The lexer -/

/-- Unquoted characters that mean themselves everywhere in a word. -/
def isPlain (c : Char) : Bool := c.isAlphanum || c == '-' || c == '_' || c == '.' || c == '/'

/-- Unquoted characters that mean themselves in an argument. A number sign begins a comment and a tilde
a home directory, but only at the beginning of a word. -/
def isLiteral (inWord : Bool) (c : Char) : Bool :=
  isPlain c || c == '!' || c == '%' || c == '+' || c == '^' || inWord && (c == '#' || c == '~')

/-- An unquoted text that means itself. -/
def isBareWord : List Char → Bool
  | [] => false
  | c :: t => isLiteral false c && t.all (isLiteral true)

def isNameChar (c : Char) : Bool := c.isAlphanum || c == '_'

def isName : List Char → Bool
  | [] => false
  | c :: cs => (c.isAlpha || c == '_') && cs.all isNameChar

inductive Mode where
  | unquoted
  | escaped
  | single
  | double
  | doubleEscaped
  | dollar
  | braces (name : List Char)

structure State where
  mode : Mode
  words : List Word
  current : Option Word

namespace State

variable {ws : List Word}

def start : State := ⟨.unquoted, [], none⟩

def add (s : State) (w : Word) : State := { s with current := some (s.current.getD [] ++ w) }

def endWord (s : State) : State := { s with words := s.words ++ s.current.toList, current := none }

def go (s : State) (mode : Mode) : State := { s with mode := mode }

def step (s : State) (c : Char) : Option State :=
  match s.mode with
  | .unquoted =>
    if c = ' ' ∨ c = '\t' then some s.endWord
    else if c = '\'' then some ((s.add []).go .single)
    else if c = '"' then some ((s.add []).go .double)
    else if c = '\\' then some (s.go .escaped)
    else if isLiteral s.current.isSome c then some (s.add [.char c])
    else none
  | .escaped =>
    -- A backslash before the end of a line joins the lines.
    if c = '\n' then some (s.go .unquoted) else some ((s.add [.char c]).go .unquoted)
  | .single => if c = '\'' then some (s.go .unquoted) else some (s.add [.char c])
  | .double =>
    if c = '"' then some (s.go .unquoted)
    else if c = '\\' then some (s.go .doubleEscaped)
    else if c = '$' then some (s.go .dollar)
    else if c = '`' then none
    else some (s.add [.char c])
  | .doubleEscaped =>
    if c = '\n' then some (s.go .double)
    else if c = '$' ∨ c = '`' ∨ c = '"' ∨ c = '\\' then some ((s.add [.char c]).go .double)
    else some ((s.add [.char '\\', .char c]).go .double)
  | .dollar => if c = '\x7b' then some (s.go (.braces [])) else none
  | .braces name =>
    if c = '\x7d' then if isName name then some ((s.add [.param name]).go .double) else none
    else if isNameChar c then some (s.go (.braces (name ++ [c])))
    else none

def finish (s : State) : Option (List Word) :=
  match s.mode with
  | .unquoted => some (s.words ++ s.current.toList)
  | _ => none

end State

def run (s : State) (t : List Char) : Option State := t.foldlM State.step s

def lex (t : List Char) : Option (List Word) := (run .start t).bind State.finish

theorem run_cons (s : State) (c : Char) (t : List Char) :
    run s (c :: t) = (s.step c).bind fun s' => run s' t := rfl

theorem run_append (s : State) (t u : List Char) :
    run s (t ++ u) = (run s t).bind fun s' => run s' u := foldlM_append

variable {c : Char}

theorem run_cons_of_step {s s' : State} (h : s.step c = some s') (t : List Char) :
    run s (c :: t) = run s' t := by
  rw [run_cons, h]
  rfl

theorem State.add_add (s : State) (v w : Word) : (s.add v).add w = s.add (v ++ w) := by
  simp only [State.add, Option.getD_some, append_assoc]

open State (add_add step go)

/-- Each single quote is closed, escaped and opened again. -/
def escapeQuotes (t : List Char) : List Char :=
  t.flatMap fun c => if c = '\'' then "'\\''".toList else [c]

def quoteSingle (t : List Char) : List Char := '\'' :: (escapeQuotes t ++ ['\''])

theorem isLiteral_of_isPlain (inWord : Bool) (h : isPlain c = true) :
    isLiteral inWord c = true := by
  rw [isLiteral, h]
  rfl

theorem isLiteral_mono (inWord : Bool) (h : isLiteral false c = true) :
    isLiteral inWord c = true := by
  rw [isLiteral, Bool.false_and, Bool.or_false] at h
  rw [isLiteral, h, Bool.true_or]

theorem isLiteral_ne {inWord : Bool} (h : isLiteral inWord c = true) :
    ¬ (c = ' ' ∨ c = '\t') ∧ c ≠ '\'' ∧ c ≠ '"' ∧ c ≠ '\\' := by
  refine ⟨?_, ?_, ?_, ?_⟩
  · rintro (rfl | rfl) <;> cases inWord <;> exact absurd h (by decide)
  all_goals
    rintro rfl
    cases inWord <;> exact absurd h (by decide)

theorem step_literal {s : State} (hs : s.mode = .unquoted)
    (hc : isLiteral s.current.isSome c = true) : s.step c = some (s.add [.char c]) := by
  obtain ⟨hblank, hsingle, hdouble, hescape⟩ := isLiteral_ne hc
  rw [step, hs]
  dsimp only
  rw [if_neg hblank, if_neg hsingle, if_neg hdouble, if_neg hescape, if_pos hc]

/-- Written outside quotes, the text adds this to the current word. -/
def Adds (t : List Char) (w : Word) : Prop :=
  ∀ s : State, s.mode = .unquoted → run s t = some (s.add w)

namespace Adds

variable {t u : List Char} {v w : Word}

theorem append (ht : Adds t v) (hu : Adds u w) : Adds (t ++ u) (v ++ w) := by
  intro s hs
  rw [run_append, ht s hs, Option.bind_some, hu (s.add v) hs, add_add]

theorem ne_nil (h : Adds t w) : t ≠ [] := by
  rintro rfl
  have := congrArg (Option.map State.current) (h .start rfl)
  cases this

theorem bare (h : isBareWord t = true) : Adds t (ofText t) := by
  have hrest : ∀ (t : List Char) (s : State) (v : Word), s.mode = .unquoted →
      t.all (isLiteral true) = true → run (s.add v) t = some (s.add (v ++ ofText t)) := by
    intro t
    induction t with
    | nil =>
      intro s v _ _
      rw [ofText, map_nil, append_nil]
      rfl
    | cons c t ih =>
      intro s v hs ht
      rw [all_cons, Bool.and_eq_true] at ht
      rw [run_cons_of_step (step_literal (s := s.add v) hs ht.1), add_add, ih s _ hs ht.2,
        append_assoc]
      rfl
  cases t with
  | nil => cases h
  | cons c t =>
    rw [isBareWord, Bool.and_eq_true] at h
    intro s hs
    rw [run_cons_of_step (step_literal hs (isLiteral_mono _ h.1)), hrest t s _ hs h.2]
    rfl

theorem plain (hne : t ≠ []) (h : ∀ c ∈ t, isPlain c = true) : Adds t (ofText t) := by
  obtain ⟨c, t, rfl⟩ := exists_cons_of_ne_nil hne
  obtain ⟨hc, ht⟩ := forall_mem_cons.mp h
  refine bare ?_
  rw [isBareWord, Bool.and_eq_true, all_eq_true]
  exact ⟨isLiteral_of_isPlain _ hc, fun d hd => isLiteral_of_isPlain _ (ht d hd)⟩

theorem singleQuoted (t : List Char) : Adds (quoteSingle t) (ofText t) := by
  intro s hs
  have hadd : ∀ (v : Word) (c : Char), ((s.add v).add [.char c]).go .single =
      (s.add (v ++ [.char c])).go .single := fun v c => by rw [add_add]
  have hchar : ∀ (v : Word) (c : Char), run ((s.add v).go .single)
      (if c = '\'' then "'\\''".toList else [c]) = some ((s.add (v ++ [.char c])).go .single) := by
    intro v c
    by_cases hc : c = '\''
    · rw [if_pos hc, hc, ← hadd]
      show some (go (((s.add v).add [.char '\'']).add []) .single) = _
      rw [add_add, append_nil]
    · have hstep : ((s.add v).go .single).step c = some (((s.add v).add [.char c]).go .single) := by
        rw [step]
        dsimp only [go]
        rw [if_neg hc]
        rfl
      rw [if_neg hc, run_cons_of_step hstep, hadd]
      rfl
  have hbody : ∀ (t : List Char) (v : Word), run ((s.add v).go .single) (escapeQuotes t)
      = some ((s.add (v ++ ofText t)).go .single) := by
    intro t
    induction t with
    | nil =>
      intro v
      rw [ofText, map_nil, append_nil]
      rfl
    | cons c t ih =>
      intro v
      rw [escapeQuotes, flatMap_cons, run_append, hchar, Option.bind_some]
      exact (ih (v ++ [.char c])).trans (by rw [append_assoc])
  have hopen : s.step '\'' = some ((s.add []).go .single) := by
    rw [step, hs]
    rfl
  have hclose : run ((s.add (ofText t)).go .single) ['\''] = some (s.add (ofText t)) := by
    obtain ⟨mode, words, current⟩ := s
    cases hs
    rfl
  rw [quoteSingle, run_cons_of_step hopen, run_append, hbody t [], Option.bind_some,
    nil_append, hclose]

theorem param {name : List Char} (h : isName name = true) :
    Adds ('"' :: '$' :: '\x7b' :: (name ++ ['\x7d', '"'])) [.param name] := by
  have hchars : ∀ c ∈ name, isNameChar c = true := by
    cases name with
    | nil => exact absurd h Bool.false_ne_true
    | cons d ds =>
      simp only [isName, Bool.and_eq_true, all_eq_true] at h
      intro c hc
      rcases mem_cons.mp hc with rfl | hc
      · have hfirst := h.1
        simp only [Bool.or_eq_true] at hfirst
        simp only [isNameChar, Char.isAlphanum, Bool.or_eq_true]
        tauto
      · exact h.2 c hc
  have hname : ∀ (cs seen : List Char) (s : State), (∀ c ∈ cs, isNameChar c = true) →
      run (s.go (.braces seen)) cs = some (s.go (.braces (seen ++ cs))) := by
    intro cs
    induction cs with
    | nil =>
      intro seen s _
      rw [append_nil]
      rfl
    | cons c cs ih =>
      intro seen s hcs
      have hc := hcs c mem_cons_self
      have hclose : c ≠ '\x7d' := by
        rintro rfl
        exact absurd hc (by decide)
      have hstep : (s.go (.braces seen)).step c = some (s.go (.braces (seen ++ [c]))) := by
        rw [step]
        dsimp only [go]
        rw [if_neg hclose, if_pos hc]
      rw [run_cons_of_step hstep, ih _ s fun d hd => hcs d (mem_cons_of_mem c hd), append_assoc]
      rfl
  intro s hs
  have hopen : s.step '"' = some ((s.add []).go .double) := by
    rw [step, hs]
    rfl
  have hclose : ((s.add []).go (.braces name)).step '\x7d' =
      some (((s.add []).add [.param name]).go .double) := by
    rw [step]
    dsimp only [go]
    rw [if_pos rfl, if_pos h]
    rfl
  have hdollar : ((s.add []).go .double).step '$' = some ((s.add []).go .dollar) := rfl
  have hbrace : ((s.add []).go .dollar).step '\x7b' = some ((s.add []).go (.braces [])) := rfl
  rw [run_cons_of_step hopen, run_cons_of_step hdollar, run_cons_of_step hbrace, run_append,
    hname name [] (s.add []) hchars, nil_append, Option.bind_some, run_cons_of_step hclose, add_add]
  obtain ⟨mode, words, current⟩ := s
  cases hs
  rfl

end Adds

/-- At the beginning of a word, the text is the words. -/
def Gives (t : List Char) (ws : List Word) : Prop :=
  ∀ s : State, s.mode = .unquoted → s.current = none →
    (run s t).map State.endWord = some ⟨.unquoted, s.words ++ ws, none⟩

/-- The text ends a word and does nothing else. -/
def Separates (sep : List Char) : Prop :=
  ∀ s : State, s.mode = .unquoted → run s sep = some s.endWord

theorem Adds.gives {t : List Char} {w : Word} (h : Adds t w) : Gives t [w] := by
  intro s hs hcurrent
  rw [h s hs, Option.map_some, State.add, State.endWord, hcurrent, hs]
  rfl

theorem gives_nil : Gives [] [] := by
  intro s hs hcurrent
  obtain ⟨mode, words, current⟩ := s
  cases hs
  cases hcurrent
  rfl

theorem Gives.append {t u sep : List Char} {vs : List Word} (ht : Gives t ws) (hsep : Separates sep)
    (hu : Gives u vs) : Gives (t ++ (sep ++ u)) (ws ++ vs) := by
  intro s hs hcurrent
  obtain ⟨s₁, hrun, hend⟩ := Option.map_eq_some_iff.mp (ht s hs hcurrent)
  have hmode : s₁.mode = .unquoted := congrArg State.mode hend
  rw [run_append, hrun, Option.bind_some, run_append, hsep s₁ hmode, Option.bind_some, hend,
    hu _ rfl rfl, append_assoc]

theorem Gives.intercalate {sep : List Char} (hsep : Separates sep) {ts : List (List Char)}
    {wss : List (List Word)} (h : List.Forall₂ Gives ts wss) :
    Gives (sep.intercalate ts) wss.flatten := by
  induction h with
  | nil => exact gives_nil
  | @cons t ws ts wss ht hrest ih =>
    cases hrest with
    | nil =>
      rw [intercalate_singleton, flatten_cons, flatten_nil, append_nil]
      exact ht
    | cons hu hus =>
      rw [intercalate_cons_cons, append_assoc, flatten_cons]
      exact ht.append hsep ih

theorem Gives.lex {t : List Char} (h : Gives t ws) : lex t = some ws := by
  obtain ⟨s, hrun, hend⟩ := Option.map_eq_some_iff.mp (h .start rfl rfl)
  obtain ⟨mode, words, current⟩ := s
  cases (congrArg State.mode hend : mode = .unquoted)
  have hwords : words ++ current.toList = ws := congrArg State.words hend
  rw [Shell.lex, hrun, ← hwords]
  rfl

theorem separates_blank : Separates [' '] := by
  intro s hs
  obtain ⟨mode, words, current⟩ := s
  cases hs
  rfl

theorem lex_intercalate {ts : List (List Char)} (h : List.Forall₂ Adds ts ws) :
    lex ([' '].intercalate ts) = some ws := by
  have hgives : List.Forall₂ Gives ts (ws.map fun w => [w]) := by
    rw [forall₂_map_right_iff]
    exact h.imp fun _ _ => Adds.gives
  rw [(Gives.intercalate separates_blank hgives).lex, ← flatMap_def, flatMap_singleton']

end AiProxy.Shell
