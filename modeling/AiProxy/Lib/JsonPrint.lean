import AiProxy.Lib.JsonDocument

/-!
# Writing JSON texts

Strings as `serde_json` writes them, and compact objects whose members are given by their texts. A
text that is written is read back (`document_printObject`).
-/

namespace AiProxy.Json

open Option List

variable {N : Type}

/-! ## Strings -/

def hexDigit (n : Nat) : UInt8 := if n < 10 then (0x30 + n).toUInt8 else (0x57 + n).toUInt8

/-- A byte of a string; bytes outside ASCII stand for themselves. -/
def escapeByte (b : UInt8) : Bytes :=
  if b = quote then [backslash, quote]
  else if b = backslash then [backslash, backslash]
  else if b = 0x08 then [backslash, 0x62]
  else if b = 0x09 then [backslash, 0x74]
  else if b = 0x0a then [backslash, 0x6e]
  else if b = 0x0c then [backslash, 0x66]
  else if b = 0x0d then [backslash, 0x72]
  else if b < 0x20 then
    [backslash, 0x75, 0x30, 0x30, hexDigit (b.toNat / 16), hexDigit (b.toNat % 16)]
  else [b]

def escape (s : Bytes) : Bytes := s.flatMap escapeByte

def printString (s : Bytes) : Bytes := quote :: (escape s ++ [quote])

/-- What is written for a byte: itself, or a backslash with a letter, or a code of four digits. -/
inductive Escaped : UInt8 → Bytes → Prop
  | itself {b : UInt8} (control : ¬ b < 0x20) (quote : b ≠ quote) (backslash : b ≠ backslash) :
      Escaped b [b]
  | letter {b e : UInt8} (simple : simpleEscape e = some b) (unicode : e ≠ 0x75) :
      Escaped b [Json.backslash, e]
  | code {b d e : UInt8} (value : hex4 0x30 0x30 d e = some b.toNat) (ascii : b < 0x20)
      (first : d ≠ Json.quote ∧ d ≠ Json.backslash) (last : e ≠ Json.quote ∧ e ≠ Json.backslash) :
      Escaped b [Json.backslash, 0x75, 0x30, 0x30, d, e]

theorem hex4_control : ∀ n < 32, hex4 0x30 0x30 (hexDigit (n / 16)) (hexDigit (n % 16)) = some n ∧
    (hexDigit (n / 16) ≠ quote ∧ hexDigit (n / 16) ≠ backslash) ∧
      hexDigit (n % 16) ≠ quote ∧ hexDigit (n % 16) ≠ backslash := by
  decide

theorem escaped_escapeByte (b : UInt8) : Escaped b (escapeByte b) := by
  unfold escapeByte
  split_ifs with hquote hbackslash h8 h9 ha hc hd hcontrol
  · subst hquote
    exact .letter (by decide) (by decide)
  · subst hbackslash
    exact .letter (by decide) (by decide)
  · subst h8
    exact .letter (by decide) (by decide)
  · subst h9
    exact .letter (by decide) (by decide)
  · subst ha
    exact .letter (by decide) (by decide)
  · subst hc
    exact .letter (by decide) (by decide)
  · subst hd
    exact .letter (by decide) (by decide)
  · obtain ⟨hvalue, hfirst, hlast⟩ := hex4_control b.toNat (UInt8.lt_iff_toNat_lt.mp hcontrol)
    exact .code hvalue hcontrol hfirst hlast
  · exact .itself hcontrol hquote hbackslash

theorem Escaped.scanString {b : UInt8} {raw body : Bytes} (h : Escaped b raw) (hbody : Closed body) :
    Closed (raw ++ body) := by
  intro rest
  have hrest := hbody rest
  cases h with
  | itself _ hquote hbackslash =>
    rw [append_assoc, singleton_append, scanString.eq_def]
    simp only [if_neg hquote, if_neg hbackslash, hrest, map_some]
    rfl
  | letter _ _ =>
    have hne : Json.backslash ≠ Json.quote := by decide
    rw [append_assoc, cons_append, scanString.eq_def]
    simp only [if_neg hne, if_true, singleton_append, hrest, map_some]
    rfl
  | code _ _ hfirst hlast =>
    have hne : Json.backslash ≠ Json.quote := by decide
    have hzero : (0x30 : UInt8) ≠ Json.quote ∧ (0x30 : UInt8) ≠ Json.backslash := by decide
    simp only [cons_append, nil_append]
    rw [scanString.eq_def]
    simp only [if_neg hne, if_true]
    rw [scanString.eq_def]
    simp only [if_neg hzero.1, if_neg hzero.2]
    rw [scanString.eq_def]
    simp only [if_neg hzero.1, if_neg hzero.2]
    rw [scanString.eq_def]
    simp only [if_neg hfirst.1, if_neg hfirst.2]
    rw [scanString.eq_def]
    simp only [if_neg hlast.1, if_neg hlast.2, hrest, map_some]

theorem Escaped.unescape {b : UInt8} {raw body : Bytes} (h : Escaped b raw) :
    Json.unescape (raw ++ body) = (Json.unescape body).map (b :: ·) := by
  cases h with
  | itself hcontrol _ hbackslash =>
    rw [singleton_append, Json.unescape.eq_def]
    simp only [if_neg hcontrol, if_neg hbackslash]
  | @letter e hsimple hunicode =>
    have hcontrol : ¬ Json.backslash < 0x20 := by decide
    rw [cons_append, singleton_append, Json.unescape.eq_def]
    simp only [if_neg hcontrol, if_true]
    split
    · rename_i heq
      exact absurd (List.cons.inj heq).1 hunicode
    · rename_i heq
      obtain ⟨rfl, rfl⟩ := List.cons.inj heq
      rw [hsimple]
    · rename_i heq
      cases heq
  | @code d e hvalue hascii _ _ =>
    have hcontrol : ¬ Json.backslash < 0x20 := by decide
    have hsmall : b.toNat < 32 := UInt8.lt_iff_toNat_lt.mp hascii
    have hsurrogate : ¬ (0xdc00 ≤ b.toNat ∧ b.toNat ≤ 0xdfff) := by omega
    have hsurrogate' : ¬ (0xd800 ≤ b.toNat ∧ b.toNat ≤ 0xdbff) := by omega
    have hbyte : encodeUtf8 b.toNat = [b] := by
      rw [encodeUtf8, if_pos (by omega)]
      exact congrArg (fun x => [x]) (UInt8.ofNat_toNat)
    simp only [cons_append, nil_append]
    rw [Json.unescape.eq_def]
    simp only [if_neg hcontrol, if_true, hvalue, if_neg hsurrogate, if_neg hsurrogate', hbyte,
      singleton_append]

theorem closed_escape (s : Bytes) : Closed (escape s) := by
  induction s with
  | nil =>
    intro rest
    rw [escape, flatMap_nil, nil_append, scanString.eq_def]
    simp only [if_true]
  | cons b s ih => exact (escaped_escapeByte b).scanString ih

theorem unescape_escape (s : Bytes) : unescape (escape s) = some s := by
  induction s with
  | nil => rw [escape, flatMap_nil, unescape.eq_def]
  | cons b s ih =>
    rw [escape, flatMap_cons, (escaped_escapeByte b).unescape, ← escape, ih, map_some]

theorem token_printString (numOf : Bytes → Option N) (s : Bytes) :
    Token numOf (printString s) (.string s) := .string (closed_escape s) (unescape_escape s)

/-- The members of an object, given by their names and the texts of their values. -/
def printMembers : List (Bytes × Bytes) → Bytes
  | [] => []
  | [m] => printString m.1 ++ colon :: m.2
  | m :: ms => printString m.1 ++ colon :: (m.2 ++ comma :: printMembers ms)

def printObject (ms : List (Bytes × Bytes)) : Bytes := openBrace :: (printMembers ms ++ [closeBrace])

def printedKey (name : Bytes) : Key := ⟨[], escape name, [], name⟩

theorem allWs_nil : AllWs [] := forall_mem_nil _

theorem printedKey_wf (name : Bytes) : (printedKey name).WF :=
  ⟨allWs_nil, allWs_nil, closed_escape name, unescape_escape name⟩

def printedMembers (m : Bytes × Bytes × Value N) : List (Bytes × Bytes × Value N) → Members N
  | [] => .last (printedKey m.1) (.leaf [] m.2.1 [] m.2.2)
  | m' :: ms => .cons (printedKey m.1) (.leaf [] m.2.1 [] m.2.2) (printedMembers m' ms)

variable (ms : List (Bytes × Bytes × Value N))

theorem render_printedMembers :
    ∀ m, (printedMembers m ms).render = printMembers ((m :: ms).map fun m => (m.1, m.2.1)) := by
  induction ms with
  | nil =>
    simp [printedMembers, Members.render, Cst.render, Key.render, printedKey, printMembers,
      printString]
  | cons m' ms ih =>
    intro m
    rw [printedMembers, Members.render, ih m']
    simp [Cst.render, Key.render, printedKey, printMembers, printString]

theorem documents_printedMembers :
    ∀ m, (printedMembers m ms).documents = (m :: ms).map fun m => (m.1, m.2.2) := by
  induction ms with
  | nil => exact fun _ => rfl
  | cons m' ms ih =>
    intro m
    rw [printedMembers, Members.documents, ih m']
    rfl

theorem wf_printedMembers {numOf : Bytes → Option N} :
    ∀ m, (∀ m' ∈ m :: ms, Token numOf m'.2.1 m'.2.2) →
      (printedMembers m ms).WF (Token numOf) AnyNames := by
  induction ms with
  | nil =>
    intro m h
    exact ⟨printedKey_wf m.1, allWs_nil, allWs_nil, h m mem_cons_self⟩
  | cons m' ms ih =>
    intro m h
    exact ⟨printedKey_wf m.1, ⟨allWs_nil, allWs_nil, h m mem_cons_self⟩,
      ih m' fun x hx => h x (mem_cons_of_mem m hx)⟩

theorem document_printObject {numOf : Bytes → Option N} (m : Bytes × Bytes × Value N)
    (h : ∀ m' ∈ m :: ms, Token numOf m'.2.1 m'.2.2) :
    document numOf (printObject ((m :: ms).map fun m => (m.1, m.2.1))) =
      some (.object ((m :: ms).map fun m => (m.1, m.2.2))) := by
  have htree : (Cst.object [] (printedMembers m ms) []).WF (Token numOf) AnyNames :=
    ⟨allWs_nil, allWs_nil, trivial, wf_printedMembers ms m h⟩
  have hread := htree.document
  rw [Cst.render, render_printedMembers, Cst.document, documents_printedMembers] at hread
  exact hread

end AiProxy.Json
