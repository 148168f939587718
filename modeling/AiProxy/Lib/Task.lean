import Mathlib.Data.List.Basic

/-!
# Cancellable tasks

An async function is a tree of the points at which it can suspend: calls into the environment and
sends on a channel. A task can be dropped at any of them; a send that is dropped has no effect. A task
owns at most one guard: a message that is sent when the task ends, or is dropped, while the guard is
armed.

`Runs` gives the outcomes of a task, `Holds` is the weakest precondition of a task for a
postcondition and a condition on every state in which it may be dropped.
-/

namespace AiProxy

/-- A task with calls `Op`, answered by `Res`, and sends of messages `M` at the places `L`. -/
inductive Task (Op : Type) (Res : Op → Type) (L M α : Type) : Type where
  | done (a : α)
  /-- Wait for the answer of the environment. -/
  | call (op : Op) (k : Res op → Task Op Res L M α)
  /-- Wait until the channel takes the message. -/
  | send (site : L) (m : M) (k : Task Op Res L M α)
  /-- Arm, change or disarm the guard. -/
  | guard (f : Option M → Option M) (k : Task Op Res L M α)

namespace Task

variable {Op : Type} {Res : Op → Type} {L M α β : Type}
variable {x : Task Op Res L M α}

def bind : Task Op Res L M α → (α → Task Op Res L M β) → Task Op Res L M β
  | done a, f => f a
  | call op k, f => call op fun r => (k r).bind f
  | send site m k, f => send site m (k.bind f)
  | guard g k, f => guard g (k.bind f)

instance : Monad (Task Op Res L M) where
  pure := done
  bind := bind

def await (op : Op) : Task Op Res L M (Res op) := call op done

def post (site : L) (m : M) : Task Op Res L M Unit := send site m (done ())

def arm (m : M) : Task Op Res L M Unit := guard (fun _ => some m) (done ())

def amend (f : M → M) : Task Op Res L M Unit := guard (Option.map f) (done ())

def disarm : Task Op Res L M Unit := guard (fun _ => none) (done ())

/-- What a task has done: the messages the channel has taken and the armed guard. -/
structure State (M : Type) where
  log : List M
  armed : Option M

namespace State

def fresh : State M := ⟨[], none⟩

def drop (st : State M) : List M := st.log ++ st.armed.toList

end State

/-- How a task ends: with a value, or dropped at a call or a send. -/
inductive Ending (Op L α : Type) where
  | finished (a : α)
  | droppedAtCall (op : Op)
  | droppedAtSend (site : L)

/-- The outcomes of a task: how it ends, and all messages the channel has taken in the end. -/
inductive Runs : Task Op Res L M α → State M → Ending Op L α → List M → Prop where
  | done {a : α} {st : State M} : Runs (done a) st (.finished a) st.drop
  | callDropped {op : Op} {k : Res op → Task Op Res L M α} {st : State M} :
      Runs (call op k) st (.droppedAtCall op) st.drop
  | callAnswered {op : Op} {k : Res op → Task Op Res L M α} {st : State M} {e : Ending Op L α}
      {log : List M} (r : Res op) (h : Runs (k r) st e log) : Runs (call op k) st e log
  | sendDropped {site : L} {m : M} {k : Task Op Res L M α} {st : State M} :
      Runs (send site m k) st (.droppedAtSend site) st.drop
  | sendTaken {site : L} {m : M} {k : Task Op Res L M α} {st : State M} {e : Ending Op L α}
      {log : List M} (h : Runs k ⟨st.log ++ [m], st.armed⟩ e log) : Runs (send site m k) st e log
  | guard {f : Option M → Option M} {k : Task Op Res L M α} {st : State M} {e : Ending Op L α}
      {log : List M} (h : Runs k ⟨st.log, f st.armed⟩ e log) : Runs (guard f k) st e log

/-- Every way on from `st` ends in `post`, and `dropped` holds wherever the task may be dropped. -/
def Holds (dropped : Ending Op L Unit → State M → Prop) :
    Task Op Res L M α → (α → State M → Prop) → State M → Prop
  | done a, post, st => post a st
  | call op k, post, st => dropped (.droppedAtCall op) st ∧ ∀ r, Holds dropped (k r) post st
  | send site m k, post, st =>
    dropped (.droppedAtSend site) st ∧ Holds dropped k post ⟨st.log ++ [m], st.armed⟩
  | guard f k, post, st => Holds dropped k post ⟨st.log, f st.armed⟩

variable {dropped : Ending Op L Unit → State M → Prop}

theorem holds_bind (x : Task Op Res L M α) (f : α → Task Op Res L M β) (post : β → State M → Prop)
    (st : State M) :
    Holds dropped (x >>= f) post st ↔
      Holds dropped x (fun a st' => Holds dropped (f a) post st') st := by
  show Holds dropped (x.bind f) post st ↔ _
  induction x generalizing st with
  | done a => rfl
  | call op k ih | send site m k ih | guard g k ih => simp only [bind, Holds, ih]

theorem Holds.mono {post post' : α → State M → Prop} {st : State M} (h : Holds dropped x post st)
    (hp : ∀ a st', post a st' → post' a st') :
    Holds dropped x post' st := by
  induction x generalizing st with
  | done a => exact hp a st h
  | call op k ih => exact ⟨h.1, fun r => ih r (h.2 r)⟩
  | send site m k ih => exact ⟨h.1, ih h.2⟩
  | guard g k ih => exact ih h

theorem Holds.bind {f : α → Task Op Res L M β} {mid : α → State M → Prop}
    {post : β → State M → Prop} {st : State M} (h : Holds dropped x mid st)
    (hf : ∀ a st', mid a st' → Holds dropped (f a) post st') :
    Holds dropped (x >>= f) post st := (holds_bind x f post st).mpr (h.mono hf)

/-- Every outcome of a task meets what `Holds` promises: the messages are those of a state that
meets the postcondition, or the condition for the place where the task was dropped. -/
theorem Runs.outcome {post : α → State M → Prop} {st : State M} {e : Ending Op L α} {log : List M}
    (hr : Runs x st e log) (h : Holds dropped x post st) :
    ∃ st', log = st'.drop ∧
      match e with
      | .finished a => post a st'
      | .droppedAtCall op => dropped (.droppedAtCall op) st'
      | .droppedAtSend site => dropped (.droppedAtSend site) st' := by
  induction hr with
  | done => exact ⟨_, rfl, h⟩
  | callDropped | sendDropped => exact ⟨_, rfl, h.1⟩
  | callAnswered r _ ih => exact ih (h.2 r)
  | sendTaken _ ih => exact ih h.2
  | guard _ ih => exact ih h

end Task

end AiProxy
