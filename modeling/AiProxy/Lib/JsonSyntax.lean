import AiProxy.Lib.Json

/-!
# Concrete syntax of JSON texts

A syntax tree keeps every byte of a text: `render` gives the text back. A leaf of a tree is a scalar or
an empty container (`Token`).
-/

namespace AiProxy.Json

open List

variable {N : Type} {numOf : Bytes → Option N}

def AllWs (w : Bytes) : Prop := ∀ b ∈ w, isWs b = true

theorem skipWs_append {w : Bytes} (hw : AllWs w) (inp : Bytes) :
    skipWs (w ++ inp) = skipWs inp := by
  induction w with
  | nil => rfl
  | cons b w ih =>
    have hb : isWs b = true := hw b mem_cons_self
    have hw' : AllWs w := fun c hc => hw c (mem_cons_of_mem b hc)
    simp only [skipWs, cons_append, dropWhile_cons, hb, if_true]
    exact ih hw'

variable {b : UInt8}

theorem skipWs_cons (h : isWs b = false) (rest : Bytes) : skipWs (b :: rest) = b :: rest := by
  simp [skipWs, h]

/-- The text after a value begins with no byte that could continue a number. -/
def Stop (rest : Bytes) : Prop := ∀ b tail, rest = b :: tail → isNumberChar b = false

theorem stop_nil : Stop [] := fun _ _ h => nomatch h

theorem stop_cons (h : isNumberChar b = false) (tail : Bytes) : Stop (b :: tail) := by
  rintro c rest hc
  obtain ⟨rfl, rfl⟩ := List.cons.inj hc
  exact h

theorem isNumberChar_of_isWs (h : isWs b = true) : isNumberChar b = false := by
  simp only [isWs, Bool.or_eq_true, beq_iff_eq] at h
  rcases h with ((rfl | rfl) | rfl) | rfl <;> decide

theorem Stop.append {w rest : Bytes} (hw : AllWs w) (h : Stop rest) : Stop (w ++ rest) := by
  cases w with
  | nil => exact h
  | cons b w => exact stop_cons (isNumberChar_of_isWs (hw b mem_cons_self)) _

/-- The first unescaped quote after `body` is the one that follows it. -/
def Closed (body : Bytes) : Prop := ∀ rest, scanString (body ++ quote :: rest) = some (body, rest)

/-- The name of a member, with the white space around it and the colon. -/
structure Key where
  lead : Bytes
  body : Bytes
  gap : Bytes
  name : Bytes

namespace Key

def render (k : Key) : Bytes := k.lead ++ quote :: (k.body ++ quote :: (k.gap ++ [colon]))

structure WF (k : Key) : Prop where
  lead : AllWs k.lead
  gap : AllWs k.gap
  closed : Closed k.body
  name : unescape k.body = some k.name

end Key

theorem Key.render_append (k : Key) (rest : Bytes) :
    k.render ++ rest = k.lead ++ quote :: (k.body ++ quote :: (k.gap ++ colon :: rest)) := by
  simp [Key.render]

theorem Key.WF.memberName {k : Key} (h : k.WF) (rest : Bytes) :
    memberName (k.render ++ rest) = some (k.name, rest) := by
  have hquote : isWs quote = false := by decide
  have hcolon : isWs colon = false := by decide
  unfold Json.memberName
  rw [k.render_append, skipWs_append h.lead, skipWs_cons hquote]
  simp only [if_true, h.closed (k.gap ++ colon :: rest), h.name, skipWs_append h.gap,
    skipWs_cons hcolon]

/-- Scalars and empty containers. -/
inductive Token (numOf : Bytes → Option N) : Bytes → Value N → Prop
  | string {body s : Bytes} (closed : Closed body) (escaped : unescape body = some s) :
      Token numOf (quote :: (body ++ [quote])) (.string s)
  | true : Token numOf trueWord (.bool true)
  | false : Token numOf falseWord (.bool false)
  | null : Token numOf nullWord .null
  | number {b : UInt8} {tok : Bytes} {n : N} (start : isNumberStart b = Bool.true)
      (chars : ∀ c ∈ tok, isNumberChar c = Bool.true) (num : numOf (b :: tok) = some n) :
      Token numOf (b :: tok) (.number n)
  | emptyArray {w : Bytes} (ws : AllWs w) :
      Token numOf (openBracket :: (w ++ [closeBracket])) (.array [])
  | emptyObject {w : Bytes} (ws : AllWs w) :
      Token numOf (openBrace :: (w ++ [closeBrace])) (.object [])

theorem isNumberChar_of_isNumberStart (h : isNumberStart b = true) : isNumberChar b = true := by
  simp only [isNumberStart, Bool.or_eq_true] at h
  rcases h with h | h
  · rw [beq_iff_eq] at h
    subst h
    decide
  · simp [isNumberChar, h]

theorem not_isWs_of_isNumberStart (h : isNumberStart b = true) : isWs b = false := by
  by_contra hb
  have hws := isNumberChar_of_isWs (by simpa using hb)
  rw [isNumberChar_of_isNumberStart h] at hws
  cases hws

theorem takeWhile_number {tok rest : Bytes} (h : ∀ c ∈ tok, isNumberChar c = true)
    (hs : Stop rest) :
    (tok ++ rest).takeWhile isNumberChar = tok ∧ (tok ++ rest).dropWhile isNumberChar = rest := by
  rw [takeWhile_append_of_pos h, dropWhile_append_of_pos h]
  cases rest with
  | nil => simp
  | cons b tail =>
    have hb := hs b tail rfl
    simp [hb]

section Scalars

variable {b : UInt8} {rest : Bytes}

theorem literal_append (word : Bytes) (v : Value N) (rest : Bytes) :
    literal word v (word ++ rest) = some (v, skipWs rest) := by
  rw [literal, if_pos (prefix_append word rest), drop_left]

theorem scalar_number (h : isNumberStart b = true) :
    scalar numOf b rest = (numOf ((b :: rest).takeWhile isNumberChar)).map fun n =>
      (.number n, skipWs ((b :: rest).dropWhile isNumberChar)) := by
  have hne : ∀ c : UInt8, isNumberStart c = false → b ≠ c := by
    rintro c hc rfl
    rw [h] at hc
    cases hc
  rw [scalar, if_neg (hne _ (by decide)), if_neg (hne _ (by decide)), if_neg (hne _ (by decide)),
    if_neg (hne _ (by decide)), if_pos h]

end Scalars

mutual

inductive Cst (N : Type) where
  | leaf (lead raw trail : Bytes) (v : Value N)
  | array (lead : Bytes) (items : Items N) (trail : Bytes)
  | object (lead : Bytes) (members : Members N) (trail : Bytes)

inductive Items (N : Type) where
  | last (c : Cst N)
  | cons (c : Cst N) (rest : Items N)

inductive Members (N : Type) where
  | last (key : Key) (c : Cst N)
  | cons (key : Key) (c : Cst N) (rest : Members N)

end

mutual

def Cst.render : Cst N → Bytes
  | .leaf lead raw trail _ => lead ++ (raw ++ trail)
  | .array lead items trail => lead ++ openBracket :: (items.render ++ closeBracket :: trail)
  | .object lead members trail => lead ++ openBrace :: (members.render ++ closeBrace :: trail)

def Items.render : Items N → Bytes
  | .last c => c.render
  | .cons c rest => c.render ++ comma :: rest.render

def Members.render : Members N → Bytes
  | .last key c => key.render ++ c.render
  | .cons key c rest => key.render ++ (c.render ++ comma :: rest.render)

end

def Members.names : Members N → List Bytes
  | .last key _ => [key.name]
  | .cons key _ rest => key.name :: rest.names

/-! The trees of the reader's texts. What a leaf may be is a parameter: `Token numOf` for the texts
as they are read. So is what the names of the members of an object may be: anything for the reader. -/

section WellFormed

variable (Leaf : Bytes → Value N → Prop) (Names : List Bytes → Prop)

mutual

def Cst.WF : Cst N → Prop
  | .leaf lead raw trail v => AllWs lead ∧ AllWs trail ∧ Leaf raw v
  | .array lead items trail => AllWs lead ∧ AllWs trail ∧ items.WF
  | .object lead members trail =>
    AllWs lead ∧ AllWs trail ∧ Names members.names ∧ members.WF

def Items.WF : Items N → Prop
  | .last c => c.WF
  | .cons c rest => c.WF ∧ rest.WF

def Members.WF : Members N → Prop
  | .last key c => key.WF ∧ c.WF
  | .cons key c rest => key.WF ∧ c.WF ∧ rest.WF

end

end WellFormed

theorem Key.WF.head {k : Key} (h : k.WF) (rest : Bytes) :
    ∃ tail, skipWs (k.render ++ rest) = quote :: tail := by
  refine ⟨k.body ++ quote :: (k.gap ++ colon :: rest), ?_⟩
  rw [k.render_append, skipWs_append h.lead, skipWs_cons (by decide)]

theorem Members.head {Leaf : Bytes → Value N → Prop} {Names : List Bytes → Prop}
    {ms : Members N} (h : ms.WF Leaf Names) (rest : Bytes) :
    ∃ tail, skipWs (ms.render ++ rest) = quote :: tail := by
  cases ms with
  | last key c | cons key c more =>
    rw [Members.render, append_assoc]
    exact h.1.head _

theorem stop_comma (rest : Bytes) : Stop (comma :: rest) := stop_cons (by decide) rest

theorem stop_closeBracket (rest : Bytes) : Stop (closeBracket :: rest) := stop_cons (by decide) rest

theorem stop_closeBrace (rest : Bytes) : Stop (closeBrace :: rest) := stop_cons (by decide) rest

def AnyNames (_ : List Bytes) : Prop := True

end AiProxy.Json
