import Mathlib.Data.List.Basic

/-!
# Programs that call their environment

A program is the tree of the calls it makes, with a continuation for each answer. Between two calls it
runs alone, so the calls are the points at which programs of several threads interleave. `Calls P` says
that every call which a program can still make meets `P`.
-/

namespace AiProxy

/-- A program with calls `Op`, answered by `Res`. -/
inductive Resumption (Op : Type) (Res : Op → Type) (α : Type) : Type where
  | done (a : α)
  | call (op : Op) (k : Res op → Resumption Op Res α)

namespace Resumption

variable {Op : Type} {Res : Op → Type} {α β : Type}

def bind : Resumption Op Res α → (α → Resumption Op Res β) → Resumption Op Res β
  | done a, f => f a
  | call op k, f => call op fun r => (k r).bind f

instance : Monad (Resumption Op Res) where
  pure := done
  bind := bind

def await (op : Op) : Resumption Op Res (Res op) := call op done

def Calls (P : Op → Prop) : Resumption Op Res α → Prop
  | done _ => True
  | call op k => P op ∧ ∀ r, (k r).Calls P

variable {P : Op → Prop}

theorem Calls.pure (a : α) : (Pure.pure a : Resumption Op Res α).Calls P := trivial

theorem Calls.await {op : Op} (h : P op) : (await op : Resumption Op Res (Res op)).Calls P :=
  ⟨h, fun _ => trivial⟩

theorem Calls.bind {x : Resumption Op Res α} {f : α → Resumption Op Res β} (hx : x.Calls P)
    (hf : ∀ a, (f a).Calls P) : (x >>= f).Calls P := by
  induction x with
  | done a => exact hf a
  | call op k ih => exact ⟨hx.1, fun r => ih r (hx.2 r)⟩

variable {ε : Type}

theorem Calls.bindOk {x : ExceptT ε (Resumption Op Res) α}
    {f : α → ExceptT ε (Resumption Op Res) β} (hx : x.run.Calls P)
    (hf : ∀ a, (f a).run.Calls P) : (x >>= f).run.Calls P := by
  refine Calls.bind hx fun r => ?_
  cases r with
  | ok a => exact hf a
  | error e => trivial

theorem Calls.lift {x : Resumption Op Res α} (hx : x.Calls P) :
    (ExceptT.lift x : ExceptT ε (Resumption Op Res) α).run.Calls P := Calls.bind hx fun _ => trivial

end Resumption

end AiProxy
