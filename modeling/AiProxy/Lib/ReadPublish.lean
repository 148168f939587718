import AiProxy.Lib.Run
import Mathlib.Data.List.Nodup

/-!
# Calls that read, edit and publish a shared value

A shared value behind a lock, and calls that take the lock twice: to read the value, and to publish
what they have made of it. The sequential meaning of a call is a function on the view of the value that
its users have.

A run of such calls is linearizable when the view in the end is the one that the returned calls give
when they are run one at a time, in an order that respects the order in which they did not overlap.
-/

namespace AiProxy

open List

/-- A value of type `σ`, seen as `V`, with the calls `Op`. -/
structure Shared (σ Op V : Type) where
  view : σ → V
  spec : Op → V → V
  /-- The call returns after it has read this value. -/
  returnsAtOnce : Op → σ → Bool
  /-- The value after a call has published what it has made of the value it has read, over the
  value that is there now. -/
  publish : Op → σ → σ → σ
  /-- Calls that work on different parts of the value. -/
  disjoint : Op → Op → Prop
  returns_spec : ∀ op s, returnsAtOnce op s = true → spec op (view s) = view s
  publish_spec : ∀ op s, view (publish op s s) = spec op (view s)
  /-- A call for another part does not change what a call publishes. -/
  publish_disjoint : ∀ op op' read read' s, disjoint op op' →
    view (publish op read s) = spec op (view s) →
    view (publish op read (publish op' read' s)) = spec op (view (publish op' read' s))

namespace Shared

variable {σ Op V : Type}

abbrev CallId := Nat

/-- A call between its two critical sections, or after its return. -/
inductive Status (σ Op : Type) where
  | editing (op : Op) (read : σ)
  | returned

structure State (σ Op : Type) where
  value : σ
  calls : CallId → Option (Status σ Op)
  /-- The calls that have returned, in the order of their last critical section. -/
  completed : List (CallId × Op)

namespace State

def new (value : σ) : State σ Op := ⟨value, fun _ => none, []⟩

def setStatus (s : State σ Op) (c : CallId) (status : Status σ Op) : State σ Op :=
  { s with calls := fun d => if d = c then some status else s.calls d }

def complete (s : State σ Op) (c : CallId) (op : Op) : State σ Op :=
  { s.setStatus c .returned with completed := s.completed ++ [(c, op)] }

end State

inductive Event (Op : Type) where
  | read (c : CallId) (op : Op)
  | publish (c : CallId)

variable (O : Shared σ Op V)

def step (s : State σ Op) : Event Op → Option (State σ Op)
  | .read c op =>
    match s.calls c with
    | none =>
      if O.returnsAtOnce op s.value then some (s.complete c op)
      else some (s.setStatus c (.editing op s.value))
    | some _ => none
  | .publish c =>
    match s.calls c with
    | some (.editing op read) =>
      some ({ s with value := O.publish op read s.value }.complete c op)
    | _ => none

def replay (ops : List (CallId × Op)) (v : V) : V := ops.foldl (fun v op => O.spec op.2 v) v

/-- The call `a` has returned before the call `b` has begun. -/
def Precedes (value : σ) (es : List (Event Op)) (a b : CallId) : Prop :=
  ∃ fs t, fs <+: es ∧ Run.exec O.step (.new value) fs = some t ∧
    (∃ op, (a, op) ∈ t.completed) ∧ t.calls b = none

/-- The view in the end is the one of the returned calls run one at a time, in an order in which a
call that has returned before another one has begun comes first. -/
def Linearizable (value : σ) (es : List (Event Op)) (s : State σ Op) : Prop :=
  ∃ order : List (CallId × Op), order.Perm s.completed ∧
    (∀ a ∈ order, ∀ b ∈ order, O.Precedes value es a.1 b.1 → [a, b].Sublist order) ∧
    O.view s.value = O.replay order (O.view value)

/-- Between the read of a call and its publication no call for the same part publishes. -/
def Undisturbed (es : List (Event Op)) : Prop :=
  ∀ fs gs hs c op, es = fs ++ .read c op :: (gs ++ .publish c :: hs) →
    ∀ d op', .publish d ∈ gs → .read d op' ∈ es → O.disjoint op op'

/-- A call that has read a value publishes what it would publish if it ran alone at that moment. -/
def Fresh (op : Op) (read s : σ) : Prop := O.view (O.publish op read s) = O.spec op (O.view s)

def PublishesFresh (s : State σ Op) : Event Op → Prop
  | .publish c => ∀ op read, s.calls c = some (.editing op read) → O.Fresh op read s.value
  | .read _ _ => True

variable {O} {s s' : State σ Op} {e : Event Op} {es : List (Event Op)} {value : σ}

theorem replay_concat (ops : List (CallId × Op)) (op : CallId × Op) (v : V) :
    O.replay (ops ++ [op]) v = O.spec op.2 (O.replay ops v) := foldl_concat ..

theorem step_cases (h : O.step s e = some s') :
    (∃ c op, e = .read c op ∧ s.calls c = none ∧ O.returnsAtOnce op s.value = true ∧
      s' = s.complete c op) ∨
    (∃ c op, e = .read c op ∧ s.calls c = none ∧ s' = s.setStatus c (.editing op s.value)) ∨
    ∃ c op read, e = .publish c ∧ s.calls c = some (.editing op read) ∧
      s' = { s with value := O.publish op read s.value }.complete c op := by
  cases e with
  | read c op =>
    dsimp only [step] at h
    split at h
    · next hcall =>
      split at h
      · next hreturns =>
        cases h
        exact .inl ⟨c, op, rfl, hcall, hreturns, rfl⟩
      · cases h
        exact .inr (.inl ⟨c, op, rfl, hcall, rfl⟩)
    · cases h
  | publish c =>
    dsimp only [step] at h
    split at h
    · next op read hcall =>
      cases h
      exact .inr (.inr ⟨c, op, read, rfl, hcall, rfl⟩)
    · cases h

theorem step_replay
    (h : O.view s.value = O.replay s.completed (O.view value)) (hfresh : O.PublishesFresh s e)
    (hstep : O.step s e = some s') :
    O.view s'.value = O.replay s'.completed (O.view value) := by
  rcases step_cases hstep with ⟨c, op, rfl, -, hreturns, rfl⟩ | ⟨c, op, rfl, -, rfl⟩ |
    ⟨c, op, read, rfl, hcall, rfl⟩
  · show O.view s.value = O.replay (s.completed ++ [(c, op)]) (O.view value)
    rw [replay_concat, ← h]
    exact (O.returns_spec op s.value hreturns).symm
  · exact h
  · show O.view (O.publish op read s.value) = O.replay (s.completed ++ [(c, op)]) (O.view value)
    rw [replay_concat, ← h]
    exact hfresh op read hcall

/-- Every completed call has returned, and has returned once. -/
structure State.Ordered (s : State σ Op) : Prop where
  nodup : (s.completed.map Prod.fst).Nodup
  returned : ∀ p ∈ s.completed, s.calls p.1 = some .returned

theorem State.ordered_new (value : σ) : (State.new value : State σ Op).Ordered :=
  ⟨nodup_nil, forall_mem_nil _⟩

theorem State.Ordered.setStatus (h : s.Ordered) {c : CallId}
    (hc : s.calls c ≠ some .returned) (status : Status σ Op) : (s.setStatus c status).Ordered := by
  refine ⟨h.nodup, fun p hp => ?_⟩
  have hne : p.1 ≠ c := fun heq => hc (heq ▸ h.returned p hp)
  exact (if_neg hne).trans (h.returned p hp)

theorem State.Ordered.complete (h : s.Ordered) {c : CallId}
    (hc : s.calls c ≠ some .returned) (op : Op) : (s.complete c op).Ordered := by
  constructor
  · show ((s.completed ++ [(c, op)]).map Prod.fst).Nodup
    rw [map_append]
    refine nodup_append.mpr ⟨h.nodup, nodup_singleton c, ?_⟩
    intro d hd d' hd' heq
    obtain ⟨p, hp, rfl⟩ := mem_map.mp hd
    have hsame : p.1 = c := heq.trans (mem_singleton.mp hd')
    exact hc (hsame ▸ h.returned p hp)
  · have hold := (h.setStatus hc .returned).returned
    exact forall_mem_append.mpr ⟨hold, forall_mem_singleton.mpr (if_pos rfl)⟩

theorem step_ordered (h : s.Ordered) (hstep : O.step s e = some s') : s'.Ordered := by
  rcases step_cases hstep with ⟨c, op, -, hcall, -, rfl⟩ | ⟨c, op, -, hcall, rfl⟩ |
    ⟨c, op, read, -, hcall, rfl⟩
  · exact h.complete (by simp [hcall]) op
  · exact h.setStatus (by simp [hcall]) _
  · have hsame : State.Ordered { s with value := O.publish op read s.value } :=
      ⟨h.nodup, h.returned⟩
    exact hsame.complete (by simp [hcall]) op

theorem step_completed_mono (hstep : O.step s e = some s') : s.completed <+: s'.completed := by
  rcases step_cases hstep with ⟨c, op, -, -, -, rfl⟩ | ⟨c, op, -, -, rfl⟩ |
    ⟨c, op, read, -, -, rfl⟩
  · exact prefix_append _ _
  · exact prefix_refl _
  · exact prefix_append _ _

theorem exec_completed_prefix (h : Run.exec O.step s es = some s') : s.completed <+: s'.completed :=
  Run.exec_invariant (P := fun t => s.completed <+: t.completed)
    (fun _ _ _ ht hstep => ht.trans (step_completed_mono hstep)) h (prefix_refl _)

theorem sublist_of_precedes
    (h : Run.exec O.step (.new value) es = some s) {a b : CallId × Op} (ha : a ∈ s.completed)
    (hb : b ∈ s.completed) (hpre : O.Precedes value es a.1 b.1) : [a, b].Sublist s.completed := by
  obtain ⟨fs, t, ⟨gs, rfl⟩, ht, ⟨op, hop⟩, hbegun⟩ := hpre
  obtain ⟨t', ht', hrest⟩ := Run.exec_append.mp h
  cases ht.symm.trans ht'
  have hordered : ∀ {es : List (Event Op)} {u : State σ Op},
      Run.exec O.step (.new value) es = some u → u.Ordered := fun hu =>
    Run.exec_invariant (fun _ _ _ => step_ordered) hu (State.ordered_new value)
  obtain ⟨later, hlater⟩ := exec_completed_prefix hrest
  -- the call `a` is the one that had completed by then
  have hat : a ∈ t.completed := by
    have hmem : (a.1, op) ∈ s.completed := hlater ▸ mem_append_left later hop
    rw [inj_on_of_nodup_map (hordered h).nodup ha hmem rfl]
    exact hop
  have hbt : b ∉ t.completed := by
    intro hmem
    have hreturned := (hordered ht).returned b hmem
    rw [hbegun] at hreturned
    cases hreturned
  rw [← hlater] at hb ⊢
  have hblater : b ∈ later := (mem_append.mp hb).resolve_left hbt
  exact (singleton_sublist.mpr hat).append (singleton_sublist.mpr hblater)

variable (O) in
/-- What is known of a call that has read in the part `done` of the run `es`: it would publish as if it
ran alone, as long as only calls for other parts have published since. -/
def Tracked (es done : List (Event Op)) (s : State σ Op) : Prop :=
  ∀ c op read, s.calls c = some (.editing op read) → .read c op ∈ done ∧
    ∃ fs gs, done = fs ++ .read c op :: gs ∧
      ((∀ d op', .publish d ∈ gs → .read d op' ∈ es → O.disjoint op op') →
        O.Fresh op read s.value)

theorem State.calls_setStatus {c d : CallId} {status status' : Status σ Op}
    (h : (s.setStatus c status).calls d = some status') :
    d = c ∧ status = status' ∨ d ≠ c ∧ s.calls d = some status' := by
  by_cases hd : d = c
  · exact .inl ⟨hd, Option.some.inj ((if_pos hd).symm.trans h)⟩
  · exact .inr ⟨hd, (if_neg hd).symm.trans h⟩

theorem step_tracked {done rest : List (Event Op)} (hes : es = done ++ e :: rest)
    (h : O.Tracked es done s) (hstep : O.step s e = some s') : O.Tracked es (done ++ [e]) s' := by
  intro c op read hcall
  have hkept (hold : s.calls c = some (.editing op read))
      (hvalue : (∀ d op', e = .publish d → .read d op' ∈ es → O.disjoint op op') →
        O.Fresh op read s.value → O.Fresh op read s'.value) :
      .read c op ∈ done ++ [e] ∧ ∃ fs gs, done ++ [e] = fs ++ .read c op :: gs ∧
        ((∀ d op', .publish d ∈ gs → .read d op' ∈ es → O.disjoint op op') →
          O.Fresh op read s'.value) := by
    obtain ⟨hmem, fs, gs, hdone, hfresh⟩ := h c op read hold
    refine ⟨mem_append_left _ hmem, fs, gs ++ [e], by simp [hdone], fun hdisjoint => ?_⟩
    refine hvalue (fun d op' hd => hdisjoint d op' (hd ▸ mem_concat_self)) (hfresh ?_)
    exact fun d op' hd => hdisjoint d op' (mem_append_left _ hd)
  rcases step_cases hstep with ⟨c', op', rfl, -, -, rfl⟩ | ⟨c', op', rfl, -, rfl⟩ |
    ⟨d, op', read', rfl, hd, rfl⟩
  · obtain ⟨-, ⟨⟩⟩ | ⟨-, hold⟩ := State.calls_setStatus hcall
    exact hkept hold fun _ => id
  · obtain ⟨rfl, ⟨⟩⟩ | ⟨-, hold⟩ := State.calls_setStatus hcall
    · exact ⟨mem_concat_self, done, [], rfl, fun _ => O.publish_spec op s.value⟩
    · exact hkept hold fun _ => id
  · obtain ⟨-, ⟨⟩⟩ | ⟨-, hold⟩ := State.calls_setStatus hcall
    have hread : .read d op' ∈ es := hes ▸ mem_append_left _ (h d op' read' hd).1
    exact hkept hold fun hdisjoint =>
      O.publish_disjoint op op' read read' s.value (hdisjoint d op' rfl hread)

theorem along_fresh (hund : O.Undisturbed es) {rest : List (Event Op)} :
    ∀ {done s}, es = done ++ rest → O.Tracked es done s →
      Run.Along O.step O.PublishesFresh s rest := by
  induction rest with
  | nil => exact fun _ _ => trivial
  | cons e rest ih =>
    intro done s hes htracked
    refine ⟨?_, fun s' hstep => ih (by simp [hes]) (step_tracked hes htracked hstep)⟩
    cases e with
    | read c op => trivial
    | publish c =>
      intro op read hcall
      obtain ⟨-, fs, gs, hdone, hfresh⟩ := htracked c op read hcall
      refine hfresh (hund fs gs rest c op ?_)
      rw [hes, hdone]
      simp

theorem linearizable_of_undisturbed (h : Run.exec O.step (.new value) es = some s)
    (hund : O.Undisturbed es) :
    O.view s.value = O.replay s.completed (O.view value) ∧ O.Linearizable value es s := by
  have hview : O.view s.value = O.replay s.completed (O.view value) :=
    Run.exec_invariant_along (P := fun t => O.view t.value = O.replay t.completed (O.view value))
      (fun _ _ _ => step_replay) h
      (along_fresh hund (nil_append es).symm fun _ _ _ hcall => nomatch hcall) rfl
  exact ⟨hview, s.completed, .refl _, fun _ ha _ hb => sublist_of_precedes h ha hb, hview⟩

end Shared

end AiProxy
