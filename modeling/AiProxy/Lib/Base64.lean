import Mathlib.Tactic.IntervalCases

/-!
# Base64

The standard alphabet with padding. Decoding is canonical: the padding has to be there and the
unused bits of the last digit have to be zero.
-/

namespace AiProxy.Base64

open Option

def alphabet : List Char :=
  "ABCDEFGHIJKLMNOPQRSTUVWXYZabcdefghijklmnopqrstuvwxyz0123456789+/".toList

def digit (n : Nat) : Char := alphabet.getD n 'A'

def value (c : Char) : Option Nat := alphabet.idxOf? c

def encodeChars : List UInt8 → List Char
  | [] => []
  | [a] => [digit (a.toNat / 4), digit (a.toNat % 4 * 16), '=', '=']
  | [a, b] =>
    [digit (a.toNat / 4), digit (a.toNat % 4 * 16 + b.toNat / 16), digit (b.toNat % 16 * 4), '=']
  | a :: b :: c :: rest =>
    digit (a.toNat / 4) :: digit (a.toNat % 4 * 16 + b.toNat / 16) ::
      digit (b.toNat % 16 * 4 + c.toNat / 64) :: digit (c.toNat % 64) :: encodeChars rest

def decodeChars : List Char → Option (List UInt8)
  | [] => some []
  | c1 :: c2 :: c3 :: c4 :: rest => do
    let v1 ← value c1
    let v2 ← value c2
    if rest = [] ∧ c3 = '=' ∧ c4 = '=' then
      if v2 % 16 = 0 then some [.ofNat (v1 * 4 + v2 / 16)] else none
    else
      let v3 ← value c3
      if rest = [] ∧ c4 = '=' then
        if v3 % 4 = 0 then some [.ofNat (v1 * 4 + v2 / 16), .ofNat (v2 % 16 * 16 + v3 / 4)]
        else none
      else
        let v4 ← value c4
        let bytes ← decodeChars rest
        some (.ofNat (v1 * 4 + v2 / 16) :: .ofNat (v2 % 16 * 16 + v3 / 4) ::
          .ofNat (v3 % 4 * 64 + v4) :: bytes)
  | _ => none

def encode (bytes : List UInt8) : String := String.ofList (encodeChars bytes)

def decode (text : String) : Option (List UInt8) := decodeChars text.toList

theorem value_digit {n : Nat} (h : n < 64) : value (digit n) = some n := by
  interval_cases n <;> decide

theorem digit_ne_pad {n : Nat} (h : n < 64) : digit n ≠ '=' := by
  interval_cases n <;> decide

theorem ofNat_toNat_of_eq {a : UInt8} {n : Nat} (h : n = a.toNat) : UInt8.ofNat n = a := by
  rw [h, UInt8.ofNat_toNat]

theorem decodeChars_encodeChars (bytes : List UInt8) :
    decodeChars (encodeChars bytes) = some bytes := by
  induction bytes using encodeChars.induct with
  | case1 => rfl
  | case2 a =>
    have ha := a.toNat_lt
    have h1 : a.toNat / 4 * 4 + a.toNat % 4 * 16 / 16 = a.toNat := by omega
    have h2 : a.toNat % 4 * 16 % 16 = 0 := by omega
    simp (disch := omega) only [encodeChars, decodeChars, value_digit, h2, ofNat_toNat_of_eq h1,
      bind_eq_bind, bind_some, and_self, if_true]
  | case3 a b =>
    have ha := a.toNat_lt
    have hb := b.toNat_lt
    have h1 : a.toNat / 4 * 4 + (a.toNat % 4 * 16 + b.toNat / 16) / 16 = a.toNat := by omega
    have h2 : (a.toNat % 4 * 16 + b.toNat / 16) % 16 * 16 + b.toNat % 16 * 4 / 4 = b.toNat := by
      omega
    have h3 : b.toNat % 16 * 4 % 4 = 0 := by omega
    simp (disch := omega) only [encodeChars, decodeChars, value_digit, digit_ne_pad, h3,
      ofNat_toNat_of_eq h1, ofNat_toNat_of_eq h2, bind_eq_bind, bind_some, if_true, and_self,
      false_and, and_false, if_false]
  | case4 a b c rest ih =>
    have ha := a.toNat_lt
    have hb := b.toNat_lt
    have hc := c.toNat_lt
    have h1 : a.toNat / 4 * 4 + (a.toNat % 4 * 16 + b.toNat / 16) / 16 = a.toNat := by omega
    have h2 : (a.toNat % 4 * 16 + b.toNat / 16) % 16 * 16 +
        (b.toNat % 16 * 4 + c.toNat / 64) / 4 = b.toNat := by omega
    have h3 : (b.toNat % 16 * 4 + c.toNat / 64) % 4 * 64 + c.toNat % 64 = c.toNat := by omega
    simp (disch := omega) only [encodeChars, decodeChars, value_digit, digit_ne_pad,
      ofNat_toNat_of_eq h1, ofNat_toNat_of_eq h2, ofNat_toNat_of_eq h3, bind_eq_bind, bind_some, ih,
      and_false, if_false]

theorem decode_encode (bytes : List UInt8) : decode (encode bytes) = some bytes := by
  rw [decode, encode, String.toList_ofList]
  exact decodeChars_encodeChars bytes

end AiProxy.Base64
