import AiProxy.Lib.Task

/-!
# Traces of tasks

The runs of a task to its end, with what the task has seen and done on the way: the answers it got
and the messages the channel took. `Ensures` is the weakest precondition under a condition on the
steps, and `Finishes.ensured` its soundness.
-/

namespace AiProxy.Task

variable {Op : Type} {Res : Op → Type} {L M α β : Type}
variable {x : Task Op Res L M α} {st : State M} {post : β → State M → Prop}
  {f : Unit → Task Op Res L M β}

inductive Step (Op : Type) (Res : Op → Type) (L M : Type) where
  | answered (op : Op) (r : Res op)
  | sent (site : L) (m : M)

/-- The task ends with a value; the list is its trace. -/
inductive Finishes :
    Task Op Res L M α → State M → List (Step Op Res L M) → α → State M → Prop where
  | done {a : α} {st : State M} : Finishes (done a) st [] a st
  | answered {op : Op} {k : Res op → Task Op Res L M α} {st st' : State M} {a : α}
      {trace : List (Step Op Res L M)} (r : Res op) (h : Finishes (k r) st trace a st') :
      Finishes (call op k) st (.answered op r :: trace) a st'
  | sent {site : L} {m : M} {k : Task Op Res L M α} {st st' : State M} {a : α}
      {trace : List (Step Op Res L M)} (h : Finishes k ⟨st.log ++ [m], st.armed⟩ trace a st') :
      Finishes (send site m k) st (.sent site m :: trace) a st'
  | guard {f : Option M → Option M} {k : Task Op Res L M α} {st st' : State M} {a : α}
      {trace : List (Step Op Res L M)} (h : Finishes k ⟨st.log, f st.armed⟩ trace a st') :
      Finishes (guard f k) st trace a st'

theorem Finishes.holds {dropped : Ending Op L Unit → State M → Prop} {post : α → State M → Prop}
    {st' : State M} {trace : List (Step Op Res L M)} {a : α} (hx : Finishes x st trace a st')
    (h : Holds dropped x post st) : post a st' := by
  induction hx with
  | done => exact h
  | answered r _ ih => exact ih (h.2 r)
  | sent _ ih => exact ih h.2
  | guard _ ih => exact ih h

def play (answer : (op : Op) → Res op) :
    Task Op Res L M α → State M → List (Step Op Res L M) × α × State M
  | done a, st => ([], a, st)
  | call op k, st =>
    let r := play answer (k (answer op)) st
    (.answered op (answer op) :: r.1, r.2)
  | send site m k, st =>
    let r := play answer k ⟨st.log ++ [m], st.armed⟩
    (.sent site m :: r.1, r.2)
  | guard f k, st => play answer k ⟨st.log, f st.armed⟩

theorem finishes_play (answer : (op : Op) → Res op) (x : Task Op Res L M α) (st : State M) :
    Finishes x st (play answer x st).1 (play answer x st).2.1 (play answer x st).2.2 := by
  induction x generalizing st with
  | done a => exact .done
  | call op k ih => exact .answered (answer op) (ih (answer op) st)
  | send site m k ih => exact .sent (ih _)
  | guard f k ih => exact .guard (ih _)

/-- Every trace of the task from `st` whose steps all meet the condition `ok` ends in `post`. -/
def Ensures (ok : Step Op Res L M → Prop) : Task Op Res L M α → (α → State M → Prop) → State M → Prop
  | done a, post, st => post a st
  | call op k, post, st => ∀ r, ok (.answered op r) → Ensures ok (k r) post st
  | send site m k, post, st => ok (.sent site m) → Ensures ok k post ⟨st.log ++ [m], st.armed⟩
  | guard f k, post, st => Ensures ok k post ⟨st.log, f st.armed⟩

variable {ok : Step Op Res L M → Prop}

theorem Finishes.ensured {st' : State M} {trace : List (Step Op Res L M)} {a : α}
    {post : α → State M → Prop} (hx : Finishes x st trace a st') (h : Ensures ok x post st)
    (hok : ∀ step ∈ trace, ok step) : post a st' := by
  induction hx with
  | done => exact h
  | answered r _ ih =>
    obtain ⟨hfirst, hrest⟩ := List.forall_mem_cons.mp hok
    exact ih (h r hfirst) hrest
  | sent _ ih =>
    obtain ⟨hfirst, hrest⟩ := List.forall_mem_cons.mp hok
    exact ih (h hfirst) hrest
  | guard _ ih => exact ih h hok

theorem Ensures.bind {f : α → Task Op Res L M β} {mid : α → State M → Prop}
    (h : Ensures ok x mid st) (hf : ∀ a st', mid a st' → Ensures ok (f a) post st') :
    Ensures ok (x >>= f) post st := by
  show Ensures ok (x.bind f) post st
  induction x generalizing st with
  | done a => exact hf a st h
  | call op k ih => exact fun r hr => ih r (h r hr)
  | send site m k ih => exact fun hm => ih (h hm)
  | guard g k ih => exact ih h

theorem Ensures.mono {post post' : α → State M → Prop} (h : Ensures ok x post st)
    (hp : ∀ a st', post a st' → post' a st') : Ensures ok x post' st := by
  induction x generalizing st with
  | done a => exact hp a st h
  | call op k ih => exact fun r hr => ih r (h r hr)
  | send site m k ih => exact fun hm => ih (h hm)
  | guard g k ih => exact ih h

theorem Ensures.await {op : Op} {f : Res op → Task Op Res L M β}
    (h : ∀ r, ok (.answered op r) → Ensures ok (f r) post st) :
    Ensures ok (await op >>= f) post st := h

theorem Ensures.send {site : L} {m : M}
    (h : ok (.sent site m) → Ensures ok (f ()) post ⟨st.log ++ [m], st.armed⟩) :
    Ensures ok (Task.post site m >>= f) post st := h

theorem Ensures.disarm (h : Ensures ok (f ()) post ⟨st.log, none⟩) :
    Ensures ok (Task.disarm >>= f) post st := h

end AiProxy.Task
