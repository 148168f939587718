import Mathlib.Data.List.Basic

/-!
# JSON texts

Values and scalars of JSON texts as bytes. Strings are kept as their UTF-8 bytes; a later member of an
object takes the place of an earlier one with the same name (`collect`). The value of a number literal
is a parameter: `numOf` is `none` on a run of number characters that is no number or is out of range.
-/

namespace AiProxy.Json

abbrev Bytes := List UInt8

abbrev quote : UInt8 := 0x22
abbrev comma : UInt8 := 0x2c
abbrev colon : UInt8 := 0x3a
abbrev openBracket : UInt8 := 0x5b
abbrev backslash : UInt8 := 0x5c
abbrev closeBracket : UInt8 := 0x5d
abbrev openBrace : UInt8 := 0x7b
abbrev closeBrace : UInt8 := 0x7d

def trueWord : Bytes := [0x74, 0x72, 0x75, 0x65]
def falseWord : Bytes := [0x66, 0x61, 0x6c, 0x73, 0x65]
def nullWord : Bytes := [0x6e, 0x75, 0x6c, 0x6c]

inductive Value (N : Type) where
  | null
  | bool (b : Bool)
  | number (n : N)
  | string (s : Bytes)
  | array (items : List (Value N))
  | object (members : List (Bytes × Value N))

variable {N : Type}

/-- Induction over a value, with its lists of items and of members. -/
theorem Value.ind {V : Value N → Prop} {I : List (Value N) → Prop}
    {M : List (Bytes × Value N) → Prop} (null : V .null) (bool : ∀ b, V (.bool b))
    (number : ∀ n, V (.number n)) (string : ∀ s, V (.string s))
    (array : ∀ vs, I vs → V (.array vs)) (object : ∀ ms, M ms → V (.object ms))
    (nil : I []) (cons : ∀ v vs, V v → I vs → I (v :: vs)) (noMembers : M [])
    (member : ∀ k v ms, V v → M ms → M ((k, v) :: ms)) (v : Value N) : V v :=
  @Value.rec N V I M (fun m => V m.2) null bool number string array object nil cons noMembers
    (fun m ms => member m.1 m.2 ms) (fun _ _ h => h) v

/-- Insertion into an ordered map: a name that is present keeps its place. -/
def insertMember (k : Bytes) (v : Value N) : List (Bytes × Value N) → List (Bytes × Value N)
  | [] => [(k, v)]
  | m :: ms => if m.1 = k then (k, v) :: ms else m :: insertMember k v ms

def collect (ms : List (Bytes × Value N)) : List (Bytes × Value N) :=
  ms.foldl (fun acc m => insertMember m.1 m.2 acc) []

/-! ## Tokens -/

def isWs (b : UInt8) : Bool := b == 0x20 || b == 0x09 || b == 0x0d || b == 0x0a

def isDigit (b : UInt8) : Bool := 0x30 ≤ b && b ≤ 0x39

def isNumberStart (b : UInt8) : Bool := b == 0x2d || isDigit b

def isNumberChar (b : UInt8) : Bool :=
  isDigit b || b == 0x2d || b == 0x2b || b == 0x2e || b == 0x65 || b == 0x45

def skipWs (inp : Bytes) : Bytes := inp.dropWhile isWs

/-- The body of a string up to its closing quote, and what follows the quote. -/
def scanString : Bytes → Option (Bytes × Bytes)
  | [] => none
  | b :: rest =>
    if b = quote then some ([], rest)
    else if b = backslash then
      match rest with
      | [] => none
      | c :: rest => (scanString rest).map fun r => (b :: c :: r.1, r.2)
    else (scanString rest).map fun r => (b :: r.1, r.2)

def hexValue (b : UInt8) : Option Nat :=
  if isDigit b then some (b.toNat - 0x30)
  else if 0x41 ≤ b && b ≤ 0x46 then some (b.toNat - 0x41 + 10)
  else if 0x61 ≤ b && b ≤ 0x66 then some (b.toNat - 0x61 + 10)
  else none

def hex4 (a b c d : UInt8) : Option Nat := do
  some ((← hexValue a) * 0x1000 + (← hexValue b) * 0x100 + (← hexValue c) * 0x10 + (← hexValue d))

def encodeUtf8 (code : Nat) : Bytes :=
  if code < 0x80 then [code.toUInt8]
  else if code < 0x800 then [(0xc0 + code / 0x40).toUInt8, (0x80 + code % 0x40).toUInt8]
  else if code < 0x10000 then
    [(0xe0 + code / 0x1000).toUInt8, (0x80 + code / 0x40 % 0x40).toUInt8,
      (0x80 + code % 0x40).toUInt8]
  else
    [(0xf0 + code / 0x40000).toUInt8, (0x80 + code / 0x1000 % 0x40).toUInt8,
      (0x80 + code / 0x40 % 0x40).toUInt8, (0x80 + code % 0x40).toUInt8]

def simpleEscape (b : UInt8) : Option UInt8 :=
  if b = quote ∨ b = backslash ∨ b = 0x2f then some b
  else if b = 0x62 then some 0x08
  else if b = 0x66 then some 0x0c
  else if b = 0x6e then some 0x0a
  else if b = 0x72 then some 0x0d
  else if b = 0x74 then some 0x09
  else none

/-- The bytes a string body stands for. Control characters, unknown escapes and lone surrogates are
rejected. -/
def unescape : Bytes → Option Bytes
  | [] => some []
  | b :: rest =>
    if b < 0x20 then none
    else if b = backslash then
      match rest with
      | 0x75 :: a :: b :: c :: d :: rest =>
        match hex4 a b c d with
        | none => none
        | some high =>
          if 0xdc00 ≤ high ∧ high ≤ 0xdfff then none
          else if 0xd800 ≤ high ∧ high ≤ 0xdbff then
            match rest with
            | 0x5c :: 0x75 :: e :: f :: g :: h :: rest =>
              match hex4 e f g h with
              | none => none
              | some low =>
                if 0xdc00 ≤ low ∧ low ≤ 0xdfff then
                  (unescape rest).map
                    (encodeUtf8 ((high - 0xd800) * 0x400 + (low - 0xdc00) + 0x10000) ++ ·)
                else none
            | _ => none
          else (unescape rest).map (encodeUtf8 high ++ ·)
      | e :: rest =>
        match simpleEscape e with
        | none => none
        | some x => (unescape rest).map (x :: ·)
      | [] => none
    else (unescape rest).map (b :: ·)

/-- A whole text that is one string. -/
def fromStrString (text : Bytes) : Option Bytes :=
  match skipWs text with
  | b :: rest =>
    if b = quote then
      match scanString rest with
      | some (body, tail) => if skipWs tail = [] then unescape body else none
      | none => none
    else none
  | [] => none

def literal (word : Bytes) (v : Value N) (inp : Bytes) : Option (Value N × Bytes) :=
  if word <+: inp then some (v, skipWs (inp.drop word.length)) else none

def memberName (inp : Bytes) : Option (Bytes × Bytes) :=
  match skipWs inp with
  | [] => none
  | b :: rest =>
    if b = quote then
      match scanString rest with
      | none => none
      | some (body, rest) =>
        match unescape body, skipWs rest with
        | some k, c :: rest => if c = colon then some (k, rest) else none
        | _, _ => none
    else none

section Reader

variable (numOf : Bytes → Option N)

def scalar (b : UInt8) (rest : Bytes) : Option (Value N × Bytes) :=
  if b = quote then
    match scanString rest with
    | some (body, tail) => (unescape body).map fun s => (.string s, skipWs tail)
    | none => none
  else if b = 0x74 then literal trueWord (.bool true) (b :: rest)
  else if b = 0x66 then literal falseWord (.bool false) (b :: rest)
  else if b = 0x6e then literal nullWord .null (b :: rest)
  else if isNumberStart b then
    (numOf ((b :: rest).takeWhile isNumberChar)).map fun n =>
      (.number n, skipWs ((b :: rest).dropWhile isNumberChar))
  else none

end Reader

end AiProxy.Json
