import AiProxy.Lib.JsonSyntax

/-!
# JSON documents as they stand in a text

A text is read as a document that keeps all members in order, for uses that look at a document while it
is read. The value of the text is built from the document (`toValue`); the reader takes the text of a
syntax tree for the document of the tree (`Cst.WF.document`). The reader is recursive descent with a
bound on the number of calls; the length of the text is enough.
-/

namespace AiProxy.Json

open Option List

variable {N : Type}

mutual

def toValue : Value N → Value N
  | .array items => .array (itemsToValue items)
  | .object members => .object (collect (membersToValue members))
  | .null => .null
  | .bool b => .bool b
  | .number n => .number n
  | .string s => .string s

def itemsToValue : List (Value N) → List (Value N)
  | [] => []
  | v :: vs => toValue v :: itemsToValue vs

def membersToValue : List (Bytes × Value N) → List (Bytes × Value N)
  | [] => []
  | m :: ms => memberToValue m :: membersToValue ms

def memberToValue : Bytes × Value N → Bytes × Value N
  | (k, v) => (k, toValue v)

end

mutual

def depth : Value N → Nat
  | .array items => itemsDepth items + 1
  | .object members => membersDepth members + 1
  | .null | .bool _ | .number _ | .string _ => 0

def itemsDepth : List (Value N) → Nat
  | [] => 0
  | v :: vs => max (depth v) (itemsDepth vs)

def membersDepth : List (Bytes × Value N) → Nat
  | [] => 0
  | m :: ms => max (memberDepth m) (membersDepth ms)

def memberDepth : Bytes × Value N → Nat
  | (_, v) => depth v

end

section Reader

variable (numOf : Bytes → Option N)

mutual

def element : Nat → Bytes → Option (Value N × Bytes)
  | 0, _ => none
  | n + 1, inp =>
    match skipWs inp with
    | [] => none
    | b :: rest =>
      if b = openBracket then
        match skipWs rest with
        | [] => none
        | c :: tail =>
          if c = closeBracket then some (.array [], skipWs tail)
          else (items n rest).map fun r => (.array r.1, skipWs r.2)
      else if b = openBrace then
        match skipWs rest with
        | [] => none
        | c :: tail =>
          if c = closeBrace then some (.object [], skipWs tail)
          else (members n rest).map fun r => (.object r.1, skipWs r.2)
      else scalar numOf b rest

def items : Nat → Bytes → Option (List (Value N) × Bytes)
  | 0, _ => none
  | n + 1, inp =>
    match element n inp with
    | none | some (_, []) => none
    | some (v, b :: rest) =>
      if b = comma then (items n rest).map fun r => (v :: r.1, r.2)
      else if b = closeBracket then some ([v], rest)
      else none

def members : Nat → Bytes → Option (List (Bytes × Value N) × Bytes)
  | 0, _ => none
  | n + 1, inp =>
    match memberName inp with
    | none => none
    | some (k, rest) =>
      match element n rest with
      | none | some (_, []) => none
      | some (v, b :: rest) =>
        if b = comma then (members n rest).map fun r => ((k, v) :: r.1, r.2)
        else if b = closeBrace then some ([(k, v)], rest)
        else none

end

def document (text : Bytes) : Option (Value N) :=
  match element numOf (text.length + 1) text with
  | some (v, []) => some v
  | _ => none

def fromStr (text : Bytes) : Option (Value N) := (document numOf text).map toValue

end Reader

/-! ## Documents of syntax trees -/

mutual

def Cst.document : Cst N → Value N
  | .leaf _ _ _ v => v
  | .array _ items _ => .array items.documents
  | .object _ members _ => .object members.documents

def Items.documents : Items N → List (Value N)
  | .last c => [c.document]
  | .cons c rest => c.document :: rest.documents

def Members.documents : Members N → List (Bytes × Value N)
  | .last key c => [(key.name, c.document)]
  | .cons key c rest => (key.name, c.document) :: rest.documents

end

section Texts

variable {numOf : Bytes → Option N} {Names : List Bytes → Prop}

theorem insertMember_ne_nil (k : Bytes) (v : Value N) (ms : List (Bytes × Value N)) :
    insertMember k v ms ≠ [] := by
  cases ms with
  | nil => exact cons_ne_nil _ _
  | cons m ms =>
    rw [insertMember]
    split <;> exact cons_ne_nil _ _

theorem foldl_insertMember_ne_nil (ms : List (Bytes × Value N)) : ∀ {acc : List (Bytes × Value N)},
    acc ≠ [] → ms.foldl (fun acc m => insertMember m.1 m.2 acc) acc ≠ [] := by
  induction ms with
  | nil => exact fun h => h
  | cons m ms ih => exact fun _ => ih (insertMember_ne_nil _ _ _)

theorem collect_eq_nil {ms : List (Bytes × Value N)} (h : collect ms = []) : ms = [] := by
  cases ms with
  | nil => rfl
  | cons m ms => exact absurd h (foldl_insertMember_ne_nil ms (insertMember_ne_nil _ _ _))

/-- Wherever `raw` stands, the document reader takes it for `v`. -/
def ReadAs (numOf : Bytes → Option N) (raw : Bytes) (v : Value N) : Prop :=
  ∀ rest n, Stop rest → raw.length ≤ n → element numOf n (raw ++ rest) = some (v, skipWs rest)

theorem element_scalar {b : UInt8} {inp rest : Bytes} {n : Nat} (h : skipWs inp = b :: rest)
    (hb : b ≠ openBracket) (hb' : b ≠ openBrace) :
    element numOf (n + 1) inp = scalar numOf b rest := by
  rw [element, h]
  simp only [if_neg hb, if_neg hb']

theorem Token.reads {raw : Bytes} {v : Value N} (h : Token numOf raw v) : ReadAs numOf raw v := by
  intro rest n hstop hn
  cases n with
  | zero =>
    cases h <;> simp [trueWord, falseWord, nullWord] at hn
  | succ n =>
    cases h with
    | string closed escaped =>
      rename_i body s
      have htext : quote :: (body ++ [quote]) ++ rest = quote :: (body ++ quote :: rest) := by simp
      rw [htext, element_scalar (skipWs_cons (by decide) _) (by decide) (by decide), scalar,
        if_pos rfl, closed rest]
      simp only [escaped, map_some]
    | true =>
      exact literal_append trueWord _ rest
    | false =>
      exact literal_append falseWord _ rest
    | null =>
      exact literal_append nullWord _ rest
    | number start chars num =>
      rename_i b tok k
      have hne : ∀ c : UInt8, isNumberStart c = Bool.false → b ≠ c := by
        rintro c hc rfl
        rw [start] at hc
        cases hc
      have hall : ∀ c ∈ b :: tok, isNumberChar c = Bool.true :=
        forall_mem_cons.mpr ⟨isNumberChar_of_isNumberStart start, chars⟩
      obtain ⟨htake, hdrop⟩ := takeWhile_number hall hstop
      rw [cons_append] at htake hdrop ⊢
      rw [element_scalar (skipWs_cons (not_isWs_of_isNumberStart start) _) (hne _ (by decide))
        (hne _ (by decide)), scalar_number start, htake, hdrop, num]
      rfl
    | emptyArray ws =>
      rename_i w
      have htext : openBracket :: (w ++ [closeBracket]) ++ rest
          = openBracket :: (w ++ closeBracket :: rest) := by simp
      rw [htext, element, skipWs_cons (by decide)]
      simp only [if_true, skipWs_append ws,
        skipWs_cons (show isWs closeBracket = Bool.false by decide)]
    | emptyObject ws =>
      rename_i w
      have htext : openBrace :: (w ++ [closeBrace]) ++ rest
          = openBrace :: (w ++ closeBrace :: rest) := by simp
      rw [htext, element, skipWs_cons (by decide)]
      simp only [if_true, if_neg (show openBrace ≠ openBracket by decide), skipWs_append ws,
        skipWs_cons (show isWs closeBrace = Bool.false by decide)]

theorem element_congr {inp inp' : Bytes} (h : skipWs inp = skipWs inp') (n : Nat) :
    element numOf n inp = element numOf n inp' := by
  cases n with
  | zero => rw [element, element]
  | succ n => rw [element, element, h]

theorem element_head {n : Nat} {inp : Bytes} {r : Value N × Bytes}
    (h : element numOf n inp = some r) : ∃ b rest, skipWs inp = b :: rest ∧ b ≠ closeBracket := by
  cases n with
  | zero => cases h
  | succ n =>
    cases hskip : skipWs inp with
    | nil =>
      rw [element, hskip] at h
      cases h
    | cons b rest =>
      refine ⟨b, rest, rfl, ?_⟩
      rintro rfl
      rw [element_scalar hskip (by decide) (by decide)] at h
      cases h

theorem items_head {n : Nat} {inp : Bytes} {r : List (Value N) × Bytes}
    (h : items numOf n inp = some r) : ∃ b rest, skipWs inp = b :: rest ∧ b ≠ closeBracket := by
  cases n with
  | zero => cases h
  | succ n =>
    cases he : element numOf n inp with
    | none =>
      rw [items, he] at h
      cases h
    | some r => exact element_head he

mutual

theorem Cst.reads : (c : Cst N) → c.WF (Token numOf) Names → ReadAs numOf c.render c.document
  | .leaf lead raw trail v, ⟨hlead, htrail, hraw⟩ => by
    intro rest n hstop hn
    simp only [Cst.render, length_append] at hn
    rw [Cst.render, append_assoc, element_congr (skipWs_append hlead _), append_assoc,
      hraw.reads (trail ++ rest) n (hstop.append htrail) (by omega), skipWs_append htrail]
    rfl
  | .array lead is trail, ⟨hlead, htrail, his⟩ => by
    intro rest n hstop hn
    simp only [Cst.render, length_append, length_cons] at hn
    cases n with
    | zero => omega
    | succ n =>
      have hitems := Items.reads is his (trail ++ rest) n (by omega)
      obtain ⟨b, tail, hskip, hb⟩ := items_head hitems
      have htext : (Cst.array lead is trail).render ++ rest
          = lead ++ openBracket :: (is.render ++ closeBracket :: (trail ++ rest)) := by
        simp [Cst.render]
      rw [htext, element_congr (skipWs_append hlead _), element, skipWs_cons (by decide)]
      simp only [if_true, hskip, if_neg hb, hitems, map_some, skipWs_append htrail]
      rfl
  | .object lead ms trail, ⟨hlead, htrail, _, hms⟩ => by
    intro rest n hstop hn
    simp only [Cst.render, length_append, length_cons] at hn
    cases n with
    | zero => omega
    | succ n =>
      have hmembers := Members.reads ms hms (trail ++ rest) n (by omega)
      obtain ⟨tail, hskip⟩ := Members.head hms (closeBrace :: (trail ++ rest))
      have htext : (Cst.object lead ms trail).render ++ rest
          = lead ++ openBrace :: (ms.render ++ closeBrace :: (trail ++ rest)) := by
        simp [Cst.render]
      rw [htext, element_congr (skipWs_append hlead _), element, skipWs_cons (by decide)]
      simp only [if_neg (show openBrace ≠ openBracket by decide), if_true, hskip,
        if_neg (show quote ≠ closeBrace by decide), hmembers, map_some, skipWs_append htrail]
      rfl

theorem Items.reads : (is : Items N) → is.WF (Token numOf) Names → ∀ rest n,
    is.render.length + 1 ≤ n →
      items numOf n (is.render ++ closeBracket :: rest) = some (is.documents, rest)
  | .last c, hc => by
    intro rest n hn
    obtain ⟨n, rfl⟩ := Nat.exists_eq_add_one_of_ne_zero (show n ≠ 0 by omega)
    have hread := Cst.reads c hc (closeBracket :: rest) n (stop_closeBracket rest)
      (by simp only [Items.render] at hn; omega)
    rw [Items.render, items, hread, skipWs_cons (by decide)]
    simp only [if_neg (show closeBracket ≠ comma by decide), if_true, Items.documents]
  | .cons c more, ⟨hc, hmore⟩ => by
    intro rest n hn
    obtain ⟨n, rfl⟩ := Nat.exists_eq_add_one_of_ne_zero (show n ≠ 0 by omega)
    simp only [Items.render, length_append, length_cons] at hn
    have hread := Cst.reads c hc (comma :: (more.render ++ closeBracket :: rest)) n
      (stop_comma _) (by omega)
    have hitems := Items.reads more hmore rest n (by omega)
    rw [Items.render, append_assoc, cons_append, items, hread, skipWs_cons (by decide)]
    simp only [if_true, hitems, map_some, Items.documents]

theorem Members.reads : (ms : Members N) → ms.WF (Token numOf) Names → ∀ rest n,
    ms.render.length + 1 ≤ n →
      members numOf n (ms.render ++ closeBrace :: rest) = some (ms.documents, rest)
  | .last key c, ⟨hkey, hc⟩ => by
    intro rest n hn
    obtain ⟨n, rfl⟩ := Nat.exists_eq_add_one_of_ne_zero (show n ≠ 0 by omega)
    simp only [Members.render, length_append] at hn
    have hread := Cst.reads c hc (closeBrace :: rest) n (stop_closeBrace rest) (by omega)
    rw [Members.render, append_assoc, members, hkey.memberName]
    simp only [hread, skipWs_cons (show isWs closeBrace = false by decide),
      if_neg (show closeBrace ≠ comma by decide), if_true, Members.documents]
  | .cons key c more, ⟨hkey, hc, hmore⟩ => by
    intro rest n hn
    obtain ⟨n, rfl⟩ := Nat.exists_eq_add_one_of_ne_zero (show n ≠ 0 by omega)
    simp only [Members.render, length_append, length_cons] at hn
    have hread := Cst.reads c hc (comma :: (more.render ++ closeBrace :: rest)) n
      (stop_comma _) (by omega)
    have hmembers := Members.reads more hmore rest n (by omega)
    rw [Members.render, append_assoc, append_assoc, cons_append, members, hkey.memberName]
    simp only [hread, skipWs_cons (show isWs comma = false by decide), if_true, hmembers,
      map_some, Members.documents]

end

theorem Cst.WF.document {c : Cst N} (h : c.WF (Token numOf) Names) :
    Json.document numOf c.render = some c.document := by
  have hread := c.reads h [] (c.render.length + 1) stop_nil (Nat.le_succ _)
  rw [append_nil] at hread
  rw [Json.document, hread]
  rfl

end Texts

/-- Bytes that stand for themselves in a string. -/
def Plain (body : Bytes) : Prop := ∀ b ∈ body, ¬ b < 0x20 ∧ b ≠ quote ∧ b ≠ backslash

theorem Plain.closed {body : Bytes} (h : Plain body) : Closed body := by
  intro rest
  induction body with
  | nil =>
    rw [nil_append, scanString.eq_def]
    simp only [if_true]
  | cons b body ih =>
    obtain ⟨⟨-, hquote, hbackslash⟩, hbody⟩ := forall_mem_cons.mp h
    rw [cons_append, scanString.eq_def]
    simp only [if_neg hquote, if_neg hbackslash, ih hbody, map_some]

theorem Plain.unescape {body : Bytes} (h : Plain body) : unescape body = some body := by
  induction body with
  | nil => rw [Json.unescape.eq_def]
  | cons b body ih =>
    obtain ⟨⟨hcontrol, -, hbackslash⟩, hbody⟩ := forall_mem_cons.mp h
    rw [Json.unescape.eq_def]
    simp only [if_neg hcontrol, if_neg hbackslash, ih hbody, map_some]

theorem plain_replicate {b : UInt8} (h : ¬ b < 0x20 ∧ b ≠ quote ∧ b ≠ backslash) (n : Nat) :
    Plain (List.replicate n b) := by
  intro c hc
  rw [eq_of_mem_replicate hc]
  exact h

end AiProxy.Json
