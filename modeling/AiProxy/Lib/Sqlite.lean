import AiProxy.Lib.Utf8

/-!
# SQL expressions over texts and integers

The functions and operators of SQLite that the queries use, without extensions: case is that of
ASCII letters, texts are compared by their bytes. A condition is only ever used positively, so an
expression that is `NULL` is treated as false.
-/

namespace AiProxy.Sqlite

open Utf8 (encode)

def lower (t : List Char) : List Char := t.map Char.toLower

def upper (t : List Char) : List Char := t.map Char.toUpper

/-- `t LIKE pattern ESCAPE escape` -/
def like (escape : Char) : List Char → List Char → Bool
  | [], t => t.isEmpty
  | c :: pattern, t =>
    if c = escape then
      match pattern, t with
      | d :: pattern, x :: t => d.toLower == x.toLower && like escape pattern t
      | _, _ => false
    else if c = '%' then t.tails.any (like escape pattern)
    else if c = '_' then
      match t with
      | _ :: t => like escape pattern t
      | [] => false
    else
      match t with
      | x :: t => c.toLower == x.toLower && like escape pattern t
      | [] => false

/-- `instr(t, part) > 0` -/
def instr (t part : List Char) : Bool := t.tails.any part.isPrefixOf

/-! ## Comparison -/

theorem transCmp_on {α β : Type} (cmp : β → β → Ordering) [Std.TransCmp cmp] (f : α → β) :
    Std.TransCmp fun a b => cmp (f a) (f b) where
  eq_swap := Std.OrientedCmp.eq_swap
  isLE_trans := Std.TransCmp.isLE_trans

theorem transCmp_then {α : Type} (first second : α → α → Ordering) [Std.TransCmp first]
    [Std.TransCmp second] : Std.TransCmp fun a b => (first a b).then (second a b) :=
  inferInstanceAs (Std.TransCmp (compareLex first second))

theorem then_beq_lt (a b : Ordering) : (a.then b == .lt) = (a == .lt || (a == .eq && b == .lt)) := by
  cases a <;> cases b <;> rfl

def compareInteger (a b : Int) : Ordering := compareOfLessAndEq a b

def compareByte (a b : UInt8) : Ordering := compareOfLessAndEq a.toNat b.toNat

def compareText (a b : List Char) : Ordering := List.compareLex compareByte (encode a) (encode b)

instance : Std.TransCmp compareInteger := inferInstanceAs (Std.TransCmp (@compare Int instOrdInt))

instance : Std.LawfulEqCmp compareInteger :=
  inferInstanceAs (Std.LawfulEqCmp (@compare Int instOrdInt))

instance : Std.TransCmp compareByte := transCmp_on (@compare Nat instOrdNat) UInt8.toNat

instance : Std.LawfulEqCmp compareByte where
  compare_self := Std.ReflCmp.compare_self
  eq_of_compare h := by
    have hnat : @compare Nat instOrdNat _ _ = .eq := h
    exact UInt8.toNat_inj.mp (Std.LawfulEqCmp.eq_of_compare hnat)

instance : Std.TransCmp compareText := transCmp_on (List.compareLex compareByte) encode

instance : Std.LawfulEqCmp compareText where
  compare_self := Std.ReflCmp.compare_self
  eq_of_compare {a b} h := by
    have hbytes : encode a = encode b := Std.LawfulEqCmp.eq_of_compare h
    have hchars := congrArg AiProxy.Utf8.chars hbytes
    rwa [AiProxy.Utf8.chars_encode, AiProxy.Utf8.chars_encode] at hchars

end AiProxy.Sqlite
