import Mathlib.Data.List.Basic

/-!
# Runs of an event-driven machine

A machine is a partial step function: `step s e` is the state after the event `e`, or `none` when
`e` is not enabled in `s`. A run is the list of its events. Safety properties are proved with
`exec_invariant`; those that only hold as long as the environment behaves with `exec_invariant_along`,
whose guard sees the state before each step.
-/

namespace AiProxy.Run

open List

variable {S E : Type*} (step : S → E → Option S)
variable {s s' : S} {es : List E} {P : S → Prop} {G : S → E → Prop}

/-- The state after the events `es`, or `none` when one of them is not enabled. -/
def exec : S → List E → Option S
  | s, [] => some s
  | s, e :: es => (step s e).bind fun s' => exec s' es

/-- Every step of the run `es` from `s` meets the guard `G`, read in the state before the step. -/
def Along (G : S → E → Prop) : S → List E → Prop
  | _, [] => True
  | s, e :: es => G s e ∧ ∀ s', step s e = some s' → Along G s' es

@[simp] theorem exec_nil (s : S) : exec step s [] = some s := rfl

theorem exec_cons (s : S) (e : E) (es : List E) :
    exec step s (e :: es) = (step s e).bind fun s' => exec step s' es := rfl

variable {step}

theorem exec_cons_some {e : E} :
    exec step s (e :: es) = some s' ↔ ∃ t, step s e = some t ∧ exec step t es = some s' := by
  rw [exec_cons, Option.bind_eq_some_iff]

theorem exec_append {fs : List E} : exec step s (es ++ fs) = some s' ↔
      ∃ t, exec step s es = some t ∧ exec step t fs = some s' := by
  induction es generalizing s with
  | nil => simp
  | cons e es ih =>
    rw [cons_append, exec_cons_some]
    constructor
    · rintro ⟨u, hu, h⟩
      obtain ⟨t, ht, hf⟩ := ih.mp h
      exact ⟨t, exec_cons_some.mpr ⟨u, hu, ht⟩, hf⟩
    · rintro ⟨t, ht, hf⟩
      obtain ⟨u, hu, h⟩ := exec_cons_some.mp ht
      exact ⟨u, hu, ih.mpr ⟨t, h, hf⟩⟩

theorem exists_of_exec_any {p : S → Bool}
    (h : (exec step s es).any p = true) : ∃ s', exec step s es = some s' ∧ p s' = true := by
  cases he : exec step s es with
  | none =>
    rw [he] at h
    cases h
  | some s' =>
    rw [he] at h
    exact ⟨s', rfl, h⟩

/-- A property that every step under the guard preserves holds at the end of every run whose steps
all meet the guard. -/
theorem exec_invariant_along (hstep : ∀ s e s', P s → G s e → step s e = some s' → P s')
    (h : exec step s es = some s') (hG : Along step G s es) (hs : P s) : P s' := by
  induction es generalizing s with
  | nil =>
    cases h
    exact hs
  | cons e es ih =>
    obtain ⟨t, ht, hr⟩ := exec_cons_some.mp h
    exact ih hr (hG.2 t ht) (hstep s e t hs hG.1 ht)

theorem exec_invariant_mem {G : E → Prop} (hstep : ∀ s e s', P s → G e → step s e = some s' → P s')
    (h : exec step s es = some s') (hG : ∀ e ∈ es, G e) (hs : P s) : P s' := by
  induction es generalizing s with
  | nil =>
    cases h
    exact hs
  | cons e es ih =>
    obtain ⟨t, ht, hr⟩ := exec_cons_some.mp h
    exact ih hr (fun f hf => hG f (mem_cons_of_mem e hf))
      (hstep s e t hs (hG e mem_cons_self) ht)

theorem exec_invariant (hstep : ∀ s e s', P s → step s e = some s' → P s')
    (h : exec step s es = some s') (hs : P s) : P s' :=
  exec_invariant_mem (G := fun _ => True) (fun s e s' hs _ ht => hstep s e s' hs ht) h
    (fun _ _ => trivial) hs

theorem Along.last {t : S} {e : E} (h : Along step G s (es ++ [e]))
    (ht : exec step s es = some t) : G t e := by
  induction es generalizing s with
  | nil =>
    cases ht
    exact h.1
  | cons f es ih =>
    obtain ⟨u, hu, hr⟩ := exec_cons_some.mp ht
    exact ih (h.2 u hu) hr

variable {I : S → Prop}

/-- Two guards that agree in every state of an invariant, which steps under the first one keep, are met
along the same runs. -/
theorem along_iff_along {H : S → E → Prop}
    (hinv : ∀ s e s', I s → G s e → step s e = some s' → I s') (hGH : ∀ s e, I s → (G s e ↔ H s e))
    (hs : I s) :
    Along step G s es ↔ Along step H s es := by
  induction es generalizing s with
  | nil => exact Iff.rfl
  | cons e es ih =>
    constructor
    · rintro ⟨hG, hrest⟩
      exact ⟨(hGH s e hs).mp hG, fun t ht => (ih (hinv s e t hs hG ht)).mp (hrest t ht)⟩
    · rintro ⟨hH, hrest⟩
      have hG := (hGH s e hs).mpr hH
      exact ⟨hG, fun t ht => (ih (hinv s e t hs hG ht)).mpr (hrest t ht)⟩

/-- The states after the steps of a run meet `P` exactly if all its steps meet the guard. -/
theorem along_next_iff (hstep : ∀ s e s', I s → P s → step s e = some s' → I s' ∧ (P s' ↔ G s e))
    (hnone : ∀ s e, step s e = none → G s e) (hs : I s) (hP : P s) :
    Along step (fun s e => ∀ s', step s e = some s' → P s') s es ↔ Along step G s es := by
  refine along_iff_along (I := fun s => I s ∧ P s) ?_ ?_ ⟨hs, hP⟩
  · rintro s e s' ⟨hi, hp⟩ hG hs'
    exact ⟨(hstep s e s' hi hp hs').1, hG s' hs'⟩
  · rintro s e ⟨hi, hp⟩
    cases hs' : step s e with
    | none => exact iff_of_true (fun _ h => absurd h (by simp)) (hnone s e hs')
    | some s' =>
      have hiff := (hstep s e s' hi hp hs').2
      exact ⟨fun hG => hiff.mp (hG s' rfl), fun hG t ht => Option.some.inj ht ▸ hiff.mpr hG⟩

/-- When a step from a state that meets `P` leads to another one exactly if it meets the guard, all
states of a run meet `P` exactly if all its steps meet the guard. -/
theorem forall_prefix_iff_along (hinv : ∀ s e s', I s → step s e = some s' → I s')
    (hstep : ∀ s e s', I s → P s → step s e = some s' → (P s' ↔ G s e))
    (h : exec step s es = some s') (hs : I s) (hP : P s) :
    (∀ fs t, fs <+: es → exec step s fs = some t → P t) ↔ Along step G s es := by
  induction es generalizing s with
  | nil =>
    refine iff_of_true (fun fs t hfs ht => ?_) trivial
    rw [prefix_nil.mp hfs] at ht
    cases ht
    exact hP
  | cons e es ih =>
    obtain ⟨u, hu, hr⟩ := exec_cons_some.mp h
    have hone := hstep s e u hs hP hu
    constructor
    · intro hall
      have hPu : P u := hall [e] u ⟨es, rfl⟩ (exec_cons_some.mpr ⟨u, hu, rfl⟩)
      refine ⟨hone.mp hPu, fun v hv => ?_⟩
      cases hu.symm.trans hv
      refine (ih hr (hinv s e u hs hu) hPu).mp fun fs t hfs ht => ?_
      exact hall (e :: fs) t (cons_prefix_cons.mpr ⟨rfl, hfs⟩)
        (exec_cons_some.mpr ⟨u, hu, ht⟩)
    · rintro ⟨hG, hrest⟩ fs t hfs ht
      cases fs with
      | nil =>
        cases ht
        exact hP
      | cons f fs =>
        obtain ⟨rfl, htail⟩ := cons_prefix_cons.mp hfs
        obtain ⟨v, hv, hfs'⟩ := exec_cons_some.mp ht
        cases hu.symm.trans hv
        exact (ih hr (hinv s f u hs hu) (hone.mpr hG)).mpr (hrest u hu) fs t htail hfs'

instance decidableAlong {G : S → E → Prop} [∀ s e, Decidable (G s e)] :
    ∀ s es, Decidable (Along step G s es)
  | _, [] => isTrue trivial
  | s, e :: es =>
    match h : step s e with
    | none => decidable_of_iff (G s e) (by simp [Along, h])
    | some t =>
      have := decidableAlong (G := G) t es
      decidable_of_iff (G s e ∧ Along step G t es) (by simp [Along, h])

end AiProxy.Run
