import AiProxy.Breakpoint.Manager

/-!
# Proofs: orphaned breakpoints

The invariant ties each pending entry to the interception that registered it.
-/

namespace AiProxy.Breakpoint

open List
open Run (exec Along)

variable {urlMatches : Option String → String → String → Bool} {s s' : State} {i j : InterceptId}
variable {phase : Phase} {p : String × PendingBreakpoint} {sessionId ruleId : String}

/-! ### Phases and entries -/

namespace State

variable {chosen : String × PendingBreakpoint → Bool} {resolution : RequestResolution}

theorem setPhase_self : (s.setPhase i phase).phase i = some phase := if_pos rfl

theorem setPhase_of_ne (h : j ≠ i) : (s.setPhase i phase).phase j = s.phase j := if_neg h

theorem senderAlive_iff : s.senderAlive i = true ↔ ∃ p ∈ s.pending, p.2.sender = i := by
  unfold senderAlive
  rw [any_eq_true]
  simp only [decide_eq_true_eq]

theorem senderAlive_eq_false_iff : s.senderAlive i = false ↔ ∀ p ∈ s.pending, p.2.sender ≠ i := by
  rw [← Bool.not_eq_true, senderAlive_iff]
  constructor
  · intro h p hp hsender
    exact h ⟨p, hp, hsender⟩
  · rintro h ⟨p, hp, hsender⟩
    exact h p hp hsender

theorem waitsOn_iff :
    s.waitsOn p = true ↔ ∃ inbox, s.phase p.2.sender = some (.waiting p.1 inbox) := by
  unfold waitsOn
  split
  · next sessionId inbox hphase =>
    rw [hphase, decide_eq_true_eq]
    constructor
    · rintro rfl
      exact ⟨inbox, rfl⟩
    · rintro ⟨inbox', h⟩
      cases h
      rfl
  · next hphase =>
    refine iff_of_false Bool.false_ne_true ?_
    rintro ⟨inbox, h⟩
    exact hphase p.1 inbox h

/-- The phase that the interception of an entry can be in. -/
def Owns (phase : Option Phase) (sessionId : String) : Prop :=
  phase = some (.waiting sessionId none) ∨ phase = some (.releasing sessionId) ∨
    phase = some .done

/-- The invariant: no two entries have one interception, and an entry's interception has registered
it and has not been sent a resolution. -/
structure Inv (s : State) : Prop where
  senders : ∀ p ∈ s.pending, ∀ q ∈ s.pending, p.2.sender = q.2.sender → p = q
  owned : ∀ p ∈ s.pending, Owns (s.phase p.2.sender) p.1

theorem inv_new : State.new.Inv := ⟨forall_mem_nil _, forall_mem_nil _⟩

theorem Inv.restrict (h : s.Inv) (hsub : ∀ p ∈ s'.pending, p ∈ s.pending)
    (hphase : ∀ p ∈ s'.pending, s'.phase p.2.sender = s.phase p.2.sender) : s'.Inv := by
  refine ⟨fun p hp q hq => h.senders p (hsub p hp) q (hsub q hq), fun p hp => ?_⟩
  rw [hphase p hp]
  exact h.owned p (hsub p hp)

theorem Inv.setPhase_of_not_alive (h : s.Inv) (halive : s.senderAlive i = false)
    (phase : Phase) : (s.setPhase i phase).Inv := by
  refine h.restrict (fun p hp => hp) fun p hp => ?_
  exact setPhase_of_ne (senderAlive_eq_false_iff.mp halive p hp)

theorem Inv.setPhase_of_owns (h : s.Inv)
    (howns : ∀ p ∈ s.pending, p.2.sender = i → Owns (some phase) p.1) :
    (s.setPhase i phase).Inv := by
  refine ⟨h.senders, fun p hp => ?_⟩
  by_cases hi : p.2.sender = i
  · rw [hi, setPhase_self]
    exact howns p hp hi
  · rw [setPhase_of_ne hi]
    exact h.owned p hp

theorem Inv.not_alive (h : s.Inv) (hphase : ∀ sessionId, ¬ Owns (s.phase i) sessionId) :
    s.senderAlive i = false := by
  rw [senderAlive_eq_false_iff]
  rintro p hp rfl
  exact hphase p.1 (h.owned p hp)

theorem mem_release :
    p ∈ (s.release chosen resolution).pending ↔ p ∈ s.pending ∧ chosen p = false := by
  show p ∈ s.pending.filter _ ↔ _
  rw [mem_filter, Bool.not_eq_true']

theorem Inv.release_phase (h : s.Inv) (hp : p ∈ (s.release chosen resolution).pending) :
    (s.release chosen resolution).phase p.2.sender = s.phase p.2.sender := by
  obtain ⟨hmem, hstay⟩ := mem_release.mp hp
  refine if_neg fun hany => ?_
  obtain ⟨q, hq, hchosen⟩ := any_eq_true.mp hany
  rw [Bool.and_eq_true, decide_eq_true_eq] at hchosen
  rw [h.senders q hq p hmem hchosen.2, hstay] at hchosen
  exact Bool.false_ne_true hchosen.1

theorem Inv.release (h : s.Inv) (chosen : String × PendingBreakpoint → Bool)
    (resolution : RequestResolution) : (s.release chosen resolution).Inv :=
  h.restrict (fun _ hp => (mem_release.mp hp).1) fun _ hp => h.release_phase hp

theorem Inv.key_of_waiting (h : s.Inv) (hp : p ∈ s.pending)
    (hphase : s.phase p.2.sender = some (.waiting sessionId none)) :
    p.1 = sessionId := by
  rcases h.owned p hp with howns | howns | howns
  · cases hphase.symm.trans howns
    rfl
  · cases hphase.symm.trans howns
  · cases hphase.symm.trans howns

theorem registerPending_phase_of_ne (h : j ≠ i) :
    (s.registerPending i sessionId ruleId).phase j = s.phase j := setPhase_of_ne h

theorem Inv.registerPending (h : s.Inv)
    (halive : s.senderAlive i = false) : (s.registerPending i sessionId ruleId).Inv := by
  have hother : ∀ p ∈ s.pending.filter (fun p => p.1 ≠ sessionId),
      p ∈ s.pending ∧ p.2.sender ≠ i := by
    intro p hp
    have hmem := mem_of_mem_filter hp
    exact ⟨hmem, senderAlive_eq_false_iff.mp halive p hmem⟩
  constructor
  · intro p hp q hq hsender
    rcases mem_cons.mp hp with rfl | hp <;> rcases mem_cons.mp hq with rfl | hq
    · rfl
    · exact absurd hsender.symm (hother q hq).2
    · exact absurd hsender (hother p hp).2
    · exact h.senders p (hother p hp).1 q (hother q hq).1 hsender
  · intro p hp
    rcases mem_cons.mp hp with rfl | hp
    · exact .inl setPhase_self
    · rw [registerPending_phase_of_ne (hother p hp).2]
      exact h.owned p (hother p hp).1

theorem Inv.removePending (h : s.Inv) (hphase : s.phase i = some (.releasing sessionId)) :
    ∀ p ∈ (s.removePending sessionId).pending, p ∈ s.pending ∧ p.2.sender ≠ i := by
  intro p hp
  obtain ⟨hmem, hdecide⟩ := mem_filter.mp hp
  have hkey : p.1 ≠ sessionId := of_decide_eq_true hdecide
  refine ⟨hmem, ?_⟩
  rintro rfl
  rcases h.owned p hmem with howns | howns | howns
  · cases hphase.symm.trans howns
  · cases hphase.symm.trans howns
    exact hkey rfl
  · cases hphase.symm.trans howns

end State

/-- The steps as rules. An interception that has no entry, because it has not registered one or has
been sent its resolution, only changes its phase. -/
inductive Effect (s : State) : Event → State → Prop where
  | intercept {i : InterceptId} {stage : BreakpointStage} {sessionId method url : String}
      (phase : Phase) (halive : s.senderAlive i = false) :
      Effect s (.intercept i stage sessionId method url) (s.setPhase i phase)
  | register {i : InterceptId} {sessionId ruleId : String}
      (hphase : s.phase i = some (.matched sessionId ruleId)) (halive : s.senderAlive i = false) :
      Effect s (.register i) (s.registerPending i sessionId ruleId)
  | setRules (rules : List BreakpointRule) : Effect s (.setRules rules) (s.replaceRules rules)
  | cancelForRules {ruleIds : List String} (hmem : ruleIds ∈ s.cancelling) :
      Effect s (.cancelForRules ruleIds)
        { s.cancelForRules ruleIds with cancelling := s.cancelling.erase ruleIds }
  | resolve (sessionId : String) (resolution : RequestResolution) :
      Effect s (.resolve sessionId resolution) (s.resolve sessionId resolution)
  | cancelAll : Effect s .cancelAll s.cancelAll
  | takeResolution {i : InterceptId} (halive : s.senderAlive i = false) :
      Effect s (.takeResolution i) (s.setPhase i .done)
  | senderDropped {i : InterceptId} {sessionId : String} (halive : s.senderAlive i = false) :
      Effect s (.senderDropped i) (s.setPhase i (.releasing sessionId))
  | elapsed {i : InterceptId} {sessionId : String}
      (hphase : s.phase i = some (.waiting sessionId none)) :
      Effect s (.elapsed i) (s.setPhase i (.releasing sessionId))
  | removePending {i : InterceptId} {sessionId : String}
      (hphase : s.phase i = some (.releasing sessionId)) :
      Effect s (.removePending i) ((s.removePending sessionId).setPhase i .done)
  | dropTask {i : InterceptId} : Effect s (.dropTask i) (s.setPhase i .done)

variable {e : Event}

theorem effect_of_step (h : s.Inv) (hstep : step urlMatches s e = some s') : Effect s e s' := by
  -- an interception in this phase owns no entry
  have hfree : ∀ i phase, s.phase i = phase → (∀ sessionId, ¬ State.Owns phase sessionId) →
      s.senderAlive i = false := by
    rintro i _ rfl hphase
    exact h.not_alive hphase
  cases e with
  | intercept i stage sessionId method url =>
    dsimp only [step] at hstep
    split at hstep
    · next hphase _ =>
      cases hstep
      exact .intercept _ (hfree i _ hphase (by simp [State.Owns]))
    · next hphase _ =>
      cases hstep
      exact .intercept _ (hfree i _ hphase (by simp [State.Owns]))
    · cases hstep
  | register i =>
    dsimp only [step] at hstep
    split at hstep
    · next hphase =>
      cases hstep
      exact .register hphase (hfree i _ hphase (by simp [State.Owns]))
    · cases hstep
  | setRules rules =>
    cases hstep
    exact .setRules rules
  | cancelForRules ruleIds =>
    dsimp only [step] at hstep
    split at hstep
    · next hmem =>
      cases hstep
      exact .cancelForRules hmem
    · cases hstep
  | resolve sessionId resolution =>
    cases hstep
    exact .resolve sessionId resolution
  | cancelAll =>
    cases hstep
    exact .cancelAll
  | takeResolution i =>
    dsimp only [step] at hstep
    split at hstep
    · next hphase =>
      cases hstep
      exact .takeResolution (hfree i _ hphase (by simp [State.Owns]))
    · cases hstep
  | senderDropped i =>
    dsimp only [step] at hstep
    split at hstep
    · split at hstep
      · cases hstep
      · next halive =>
        cases hstep
        exact .senderDropped (Bool.eq_false_iff.mpr halive)
    · cases hstep
  | elapsed i =>
    dsimp only [step] at hstep
    split at hstep
    · next hphase =>
      split at hstep
      · cases hstep
        exact .elapsed hphase
      · cases hstep
    · cases hstep
  | removePending i =>
    dsimp only [step] at hstep
    split at hstep
    · next hphase =>
      cases hstep
      exact .removePending hphase
    · cases hstep
  | dropTask i =>
    dsimp only [step] at hstep
    split at hstep
    · cases hstep
      exact .dropTask
    · cases hstep

theorem step_inv (h : s.Inv) (hstep : step urlMatches s e = some s') : s'.Inv := by
  cases effect_of_step h hstep with
  | intercept phase halive => exact h.setPhase_of_not_alive halive phase
  | register _ halive => exact h.registerPending halive
  | setRules rules => exact h.restrict (fun _ hp => hp) fun _ _ => rfl
  | cancelForRules _ => exact (h.release _ _).restrict (fun _ hp => hp) fun _ _ => rfl
  | resolve sessionId resolution | cancelAll => exact h.release _ _
  | takeResolution halive | senderDropped halive => exact h.setPhase_of_not_alive halive _
  | @elapsed i sessionId hphase =>
    refine h.setPhase_of_owns fun p hp hsender => ?_
    subst hsender
    rw [h.key_of_waiting hp hphase]
    exact .inr (.inl rfl)
  | removePending hphase =>
    refine h.restrict (fun p hp => (h.removePending hphase p hp).1) fun p hp => ?_
    exact State.setPhase_of_ne (h.removePending hphase p hp).2
  | dropTask => exact h.setPhase_of_owns fun _ _ _ => .inr (.inr rfl)

namespace State

theorem waitsOn_congr
    (h : s'.phase p.2.sender = s.phase p.2.sender) : s'.waitsOn p = s.waitsOn p := by
  unfold waitsOn
  rw [h]

theorem NoOrphan.restrict (h : s.NoOrphan) (hsub : ∀ p ∈ s'.pending, p ∈ s.pending)
    (hphase : ∀ p ∈ s'.pending, s'.phase p.2.sender = s.phase p.2.sender)
    (hrules : s'.rules = s.rules) : s'.NoOrphan := by
  intro p hp
  rw [waitsOn_congr (hphase p hp), hrules]
  exact h p (hsub p hp)

theorem NoOrphan.release (h : s.NoOrphan) (hinv : s.Inv)
    (chosen : String × PendingBreakpoint → Bool) (resolution : RequestResolution) :
    (s.release chosen resolution).NoOrphan :=
  h.restrict (fun _ hp => (mem_release.mp hp).1) (fun _ hp => hinv.release_phase hp) rfl

theorem NoOrphan.setPhase_of_not_alive (h : s.NoOrphan) (halive : s.senderAlive i = false)
    (phase : Phase) : (s.setPhase i phase).NoOrphan := by
  refine h.restrict (fun _ hp => hp) (fun p hp => ?_) rfl
  exact setPhase_of_ne (senderAlive_eq_false_iff.mp halive p hp)

theorem NoOrphan.setPhase_iff (h : s.NoOrphan)
    (hphase : ∀ sessionId inbox, phase ≠ .waiting sessionId inbox) :
    (s.setPhase i phase).NoOrphan ↔ s.senderAlive i = false := by
  constructor
  · intro hnew
    rw [senderAlive_eq_false_iff]
    rintro p hp rfl
    obtain ⟨inbox, hwaits⟩ := waitsOn_iff.mp (hnew p hp).1
    rw [setPhase_self] at hwaits
    cases hwaits
    exact hphase p.1 inbox rfl
  · exact fun halive => h.setPhase_of_not_alive halive phase

theorem NoOrphan.registerPending_iff (h : s.NoOrphan) (halive : s.senderAlive i = false) :
    (s.registerPending i sessionId ruleId).NoOrphan ↔ ActiveRule s.rules ruleId := by
  constructor
  · intro hnew
    exact (hnew (sessionId, ⟨ruleId, i⟩) mem_cons_self).2
  · intro hactive p hp
    rcases mem_cons.mp hp with rfl | hp
    · exact ⟨waitsOn_iff.mpr ⟨none, setPhase_self⟩, hactive⟩
    · have hmem := mem_of_mem_filter hp
      have hne := senderAlive_eq_false_iff.mp halive p hmem
      refine ⟨?_, (h p hmem).2⟩
      rw [waitsOn_congr (registerPending_phase_of_ne hne)]
      exact (h p hmem).1

end State

theorem step_noOrphan_iff (hinv : s.Inv) (h : s.NoOrphan)
    (hstep : step urlMatches s e = some s') : s'.NoOrphan ↔ LeavesNoOrphan s e := by
  cases effect_of_step hinv hstep with
  | intercept phase halive => exact iff_of_true (h.setPhase_of_not_alive halive phase) trivial
  | @register i sessionId ruleId hphase halive =>
    rw [h.registerPending_iff halive]
    constructor
    · intro hactive sessionId' ruleId' hphase'
      cases hphase.symm.trans hphase'
      exact hactive
    · exact fun hactive => hactive sessionId ruleId hphase
  | setRules rules =>
    constructor
    · exact fun hnew p hp => (hnew p hp).2
    · exact fun hactive p hp => ⟨(h p hp).1, hactive p hp⟩
  | cancelForRules _ =>
    refine iff_of_true ?_ trivial
    exact (h.release hinv _ _).restrict (fun _ hp => hp) (fun _ _ => rfl) rfl
  | resolve sessionId resolution | cancelAll => exact iff_of_true (h.release hinv _ _) trivial
  | takeResolution halive | senderDropped halive =>
    exact iff_of_true (h.setPhase_of_not_alive halive _) trivial
  | elapsed _ | dropTask => exact h.setPhase_iff fun _ _ heq => nomatch heq
  | removePending hphase =>
    refine iff_of_true ?_ trivial
    refine h.restrict (fun p hp => (hinv.removePending hphase p hp).1) (fun p hp => ?_) rfl
    exact State.setPhase_of_ne (hinv.removePending hphase p hp).2

theorem noOrphan_new : State.new.NoOrphan := forall_mem_nil _

/-- Orphaned breakpoints. In every run of the manager, no state has an orphaned entry if and only if
every step of the run leaves none: a breakpoint is registered while its rule is still active, no
rule of a pending entry is deactivated, and no interception times out or is cancelled while its
entry is pending. -/
theorem no_orphan_iff {es : List Event} {s : State}
    (h : exec (step urlMatches) .new es = some s) :
    (∀ fs t, fs <+: es → exec (step urlMatches) .new fs = some t → t.NoOrphan) ↔
      Along (step urlMatches) LeavesNoOrphan .new es :=
  Run.forall_prefix_iff_along (fun _ _ _ => step_inv) (fun _ _ _ hinv hs => step_noOrphan_iff hinv hs)
    h State.inv_new noOrphan_new

namespace Sample

def rule : BreakpointRule := ⟨"r", true, "*", [], .request, none⟩

def disconnect : List Event :=
  [.setRules [rule], .intercept 0 .request "s" "GET" "http://example.com/", .register 0,
    .dropTask 0]

/-- The user removes the rule after it has matched and before the breakpoint is registered. -/
def lateRegistration : List Event :=
  [.setRules [rule], .intercept 0 .request "s" "GET" "http://example.com/", .setRules [],
    .cancelForRules ["r"], .register 0]

def resolved : List Event :=
  [.setRules [rule], .intercept 0 .request "s" "GET" "http://example.com/", .register 0,
    .resolve "s" forwardResolution, .takeResolution 0]

end Sample

/-- Both runs end in a state in which nothing is left to be done, and with an orphaned entry. -/
theorem orphaned_entries :
    (∃ s, exec (step fun _ _ _ => true) .new Sample.disconnect = some s ∧
      s.pending = [("s", ⟨"r", 0⟩)] ∧ s.phase 0 = some .done ∧ ¬ s.NoOrphan) ∧
    ∃ s, exec (step fun _ _ _ => true) .new Sample.lateRegistration = some s ∧
      s.pending = [("s", ⟨"r", 0⟩)] ∧ s.rules = [] ∧ s.cancelling = [] ∧ ¬ s.NoOrphan := by
  constructor
  · exact ⟨_, rfl, rfl, rfl, by decide⟩
  · exact ⟨_, rfl, rfl, rfl, rfl, by decide⟩

theorem no_orphan_resolved :
    (∃ s, exec (step fun _ _ _ => true) .new Sample.resolved = some s) ∧
      ∀ fs t, fs <+: Sample.resolved → exec (step fun _ _ _ => true) .new fs = some t →
        t.NoOrphan := by
  have hrun : ∃ s, exec (step fun _ _ _ => true) .new Sample.resolved = some s := ⟨_, rfl⟩
  refine ⟨hrun, ?_⟩
  obtain ⟨s, hrun⟩ := hrun
  refine (no_orphan_iff hrun).mpr ⟨forall_mem_nil _, fun _ hrules => ?_⟩
  cases hrules
  refine ⟨trivial, fun _ hintercept => ?_⟩
  cases hintercept
  refine ⟨fun _ _ hphase => ?_, fun _ _ => ⟨trivial, fun _ _ => ⟨trivial, fun _ _ => trivial⟩⟩⟩
  cases hphase
  decide

end AiProxy.Breakpoint
