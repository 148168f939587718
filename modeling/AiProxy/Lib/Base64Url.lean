import AiProxy.Lib.Base64

/-!
# Base64 for URLs

The URL-safe alphabet without padding: the digits of `Base64` with `-` and `_` in the place of `+`
and `/`. Decoding refuses padding, and is canonical as it is there.
-/

namespace AiProxy.Base64Url

open List
open Base64 (digit encodeChars)

def toUrl (c : Char) : Char := if c = '+' then '-' else if c = '/' then '_' else c

/-- Back to the standard alphabet; `none` for what is no digit here. -/
def ofUrl (c : Char) : Option Char :=
  if c = '-' then some '+'
  else if c = '_' then some '/'
  else if c = '+' ∨ c = '/' ∨ c = '=' then none
  else some c

def padding (length : Nat) : List Char :=
  if length % 4 = 2 then ['=', '='] else if length % 4 = 3 then ['='] else []

def encode (bytes : List UInt8) : List Char :=
  ((encodeChars bytes).filter (· ≠ '=')).map toUrl

def decode (text : List Char) : Option (List UInt8) := do
  let digits ← text.mapM ofUrl
  Base64.decodeChars (digits ++ padding digits.length)

theorem ofUrl_toUrl_digit {n : Nat} (h : n < 64) : ofUrl (toUrl (digit n)) = some (digit n) := by
  interval_cases n <;> decide

theorem filter_digit {n : Nat} (h : n < 64) (text : List Char) :
    (digit n :: text).filter (· ≠ '=') = digit n :: text.filter (· ≠ '=') :=
  filter_cons_of_pos (decide_eq_true (Base64.digit_ne_pad h))

theorem encodeChars_digits (bytes : List UInt8) : ∃ ns : List Nat, (∀ n ∈ ns, n < 64) ∧
    (encodeChars bytes).filter (· ≠ '=') = ns.map digit ∧
      ns.map digit ++ padding ns.length = encodeChars bytes := by
  induction bytes using Base64.encodeChars.induct with
  | case1 => exact ⟨[], forall_mem_nil _, rfl, rfl⟩
  | case2 a =>
    have ha := a.toNat_lt
    have h1 : a.toNat / 4 < 64 := by omega
    have h2 : a.toNat % 4 * 16 < 64 := by omega
    refine ⟨[a.toNat / 4, a.toNat % 4 * 16], ?_, ?_, rfl⟩
    · simp only [forall_mem_cons]
      exact ⟨h1, h2, forall_mem_nil _⟩
    · rw [encodeChars, filter_digit h1, filter_digit h2]
      rfl
  | case3 a b =>
    have ha := a.toNat_lt
    have hb := b.toNat_lt
    have h1 : a.toNat / 4 < 64 := by omega
    have h2 : a.toNat % 4 * 16 + b.toNat / 16 < 64 := by omega
    have h3 : b.toNat % 16 * 4 < 64 := by omega
    refine ⟨[a.toNat / 4, a.toNat % 4 * 16 + b.toNat / 16, b.toNat % 16 * 4], ?_, ?_, rfl⟩
    · simp only [forall_mem_cons]
      exact ⟨h1, h2, h3, forall_mem_nil _⟩
    · rw [encodeChars, filter_digit h1, filter_digit h2, filter_digit h3]
      rfl
  | case4 a b c rest ih =>
    obtain ⟨ns, hns, hfilter, hpadded⟩ := ih
    have ha := a.toNat_lt
    have hb := b.toNat_lt
    have hc := c.toNat_lt
    have h1 : a.toNat / 4 < 64 := by omega
    have h2 : a.toNat % 4 * 16 + b.toNat / 16 < 64 := by omega
    have h3 : b.toNat % 16 * 4 + c.toNat / 64 < 64 := by omega
    have h4 : c.toNat % 64 < 64 := by omega
    refine ⟨a.toNat / 4 :: (a.toNat % 4 * 16 + b.toNat / 16) :: (b.toNat % 16 * 4 + c.toNat / 64) ::
      c.toNat % 64 :: ns, ?_, ?_, ?_⟩
    · simp only [forall_mem_cons]
      exact ⟨h1, h2, h3, h4, hns⟩
    · rw [encodeChars, filter_digit h1, filter_digit h2, filter_digit h3, filter_digit h4, hfilter]
      rfl
    · have hlength : padding (ns.length + 1 + 1 + 1 + 1) = padding ns.length := by
        rw [padding, padding, show (ns.length + 1 + 1 + 1 + 1) % 4 = ns.length % 4 by omega]
      rw [encodeChars, ← hpadded]
      simp only [length_cons, hlength, map_cons, cons_append]

theorem decode_encode (bytes : List UInt8) : decode (encode bytes) = some bytes := by
  obtain ⟨ns, hns, hfilter, hpadded⟩ := encodeChars_digits bytes
  have hdigits : ((ns.map digit).map toUrl).mapM ofUrl = some (ns.map digit) := by
    clear hfilter hpadded
    induction ns with
    | nil => rfl
    | cons n ns ih =>
      obtain ⟨hn, hrest⟩ := forall_mem_cons.mp hns
      simp only [map_cons, mapM_cons, ofUrl_toUrl_digit hn, ih hrest]
      rfl
  rw [decode, encode, hfilter, hdigits]
  show Base64.decodeChars (ns.map digit ++ padding (ns.map digit).length) = _
  rw [length_map, hpadded, Base64.decodeChars_encodeChars]

end AiProxy.Base64Url
