import AiProxy.Lib.KeyedList
import AiProxy.Rules.Managers

/-!
# Proofs: concurrent rule updates

A run of calls on the two managers is linearizable when no call is disturbed by another one on the same
manager.
-/

namespace AiProxy.Rules

variable {N Regex : Type} {regexNew : String → Option Regex}
variable {ruleId : String} {other : RuleCall N}

section Lists

variable {α : Type} {id : α → String}

theorem upsert_eq (x : α) (l : List α) : upsert id x l = KeyedList.upsert id x l := by
  induction l with
  | nil => rfl
  | cons y ys ih => rw [upsert, KeyedList.upsert_cons, ih]

theorem find?_upsert_self {x : α} (h : id x = ruleId) (l : List α) :
    (upsert id x l).find? (fun e => id e = ruleId) = some x := by
  rw [upsert_eq, ← h]
  exact KeyedList.lookup_upsert_self

theorem find?_upsert_of_ne {x : α} (h : id x ≠ ruleId) (l : List α) :
    (upsert id x l).find? (fun e => id e = ruleId) = l.find? fun e => id e = ruleId := by
  rw [upsert_eq]
  exact KeyedList.lookup_upsert_of_ne h.symm

theorem find?_retainOther_of_ne {other : String} (h : other ≠ ruleId) (l : List α) :
    (retainOther id other l).find? (fun e => id e = ruleId) = l.find? fun e => id e = ruleId := by
  have hwithout : retainOther id other l = KeyedList.without id [other] l := by
    simp [retainOther, KeyedList.without]
  rw [hwithout]
  exact KeyedList.lookup_without_of_not_mem (by simpa using h.symm)

theorem not_mem_retainOther {l : List α} : ∀ e ∈ retainOther id ruleId l, id e ≠ ruleId := by
  intro e he
  exact of_decide_eq_true (List.mem_filter.mp he).2

theorem absent_iff {l : List α} :
    (∀ e ∈ l, id e ≠ ruleId) ↔ l.find? (fun e => id e = ruleId) = none := by
  simp

end Lists

theorem shows_run (lists : RuleLists N Regex) (call : RuleCall N) :
    (call.run regexNew lists).Shows call := by
  cases call with
  | storeRewrite rule update =>
    refine ⟨_, find?_upsert_self ?_ lists.rewrite, ?_⟩
    · rfl
    · rfl
  | deleteRewrite ruleId | deleteMap ruleId => exact not_mem_retainOther
  | storeMap rule update =>
    refine ⟨_, find?_upsert_self ?_ lists.map, ?_⟩
    · rfl
    · rfl

theorem find?_rewrite_run (h : other.target ≠ (.rewrite, ruleId)) (lists : RuleLists N Regex) :
    (other.run regexNew lists).rewrite.find? (fun e => e.id = ruleId) =
      lists.rewrite.find? fun e => e.id = ruleId := by
  cases other with
  | storeRewrite rule update =>
    refine find?_upsert_of_ne ?_ lists.rewrite
    exact fun hid => h (congrArg _ hid)
  | deleteRewrite other => exact find?_retainOther_of_ne (fun hid => h (congrArg _ hid)) _
  | storeMap rule update | deleteMap other => rfl

theorem find?_map_run (h : other.target ≠ (.map, ruleId)) (lists : RuleLists N Regex) :
    (other.run regexNew lists).map.find? (fun e => e.id = ruleId) =
      lists.map.find? fun e => e.id = ruleId := by
  cases other with
  | storeRewrite rule update | deleteRewrite other => rfl
  | storeMap rule update =>
    refine find?_upsert_of_ne ?_ lists.map
    exact fun hid => h (congrArg _ hid)
  | deleteMap other => exact find?_retainOther_of_ne (fun hid => h (congrArg _ hid)) _

theorem RuleLists.Shows.run {lists : RuleLists N Regex} {call : RuleCall N}
    (h : lists.Shows call) (hne : other.target ≠ call.target) :
    (other.run regexNew lists).Shows call := by
  cases call with
  | storeRewrite rule update =>
    obtain ⟨entry, hfind, hrule⟩ := h
    exact ⟨entry, (find?_rewrite_run hne lists).trans hfind, hrule⟩
  | deleteRewrite ruleId =>
    exact absent_iff.mpr ((find?_rewrite_run hne lists).trans (absent_iff.mp h))
  | storeMap rule update =>
    obtain ⟨entry, hfind, hrule⟩ := h
    exact ⟨entry, (find?_map_run hne lists).trans hfind, hrule⟩
  | deleteMap ruleId => exact absent_iff.mpr ((find?_map_run hne lists).trans (absent_iff.mp h))

open List
open Shared (Event State)

theorem RuleLists.Shows.replay {call : RuleCall N} (ops : List (Nat × RuleCall N))
    {lists : RuleLists N Regex} (h : lists.Shows call)
    (hne : ∀ op ∈ ops, op.2.target ≠ call.target) :
    ((ruleRuntime regexNew).replay ops lists).Shows call := by
  induction ops generalizing lists with
  | nil => exact h
  | cons op ops ih =>
    refine ih (h.run (hne op mem_cons_self)) fun op' hop' => ?_
    exact hne op' (mem_cons_of_mem op hop')

theorem shows_replay {ops : List (Nat × RuleCall N)} {op : Nat × RuleCall N} (hop : op ∈ ops)
    (hnodup : (ops.map Prod.fst).Nodup)
    (hne : ∀ op' ∈ ops, op'.1 ≠ op.1 → op'.2.target ≠ op.2.target) (lists : RuleLists N Regex) :
    ((ruleRuntime regexNew).replay ops lists).Shows op.2 := by
  obtain ⟨before, after, rfl⟩ := append_of_mem hop
  rw [Shared.replay, foldl_append]
  refine RuleLists.Shows.replay after (shows_run _ op.2) fun op' hop' => ?_
  refine hne op' (mem_append_right _ (mem_cons_of_mem _ hop')) ?_
  rw [map_append] at hnodup
  have htail := (nodup_append.mp hnodup).2.1
  intro heq
  exact (nodup_cons.mp htail).1 (heq ▸ mem_map_of_mem hop')

/-- Concurrent rule updates. In every run of calls on the two managers in which nothing is published on a
manager between the read of a call on it and its publication, the published lists are those of the
returned calls run one at a time in an order that respects real time; and a save or delete that has
returned is not undone by calls for other rules. -/
theorem rule_updates_linearizable {es : List (Event (RuleCall N))}
    {s : State (RuntimeRuleSnapshot N Regex) (RuleCall N)}
    (h : Run.exec (ruleRuntime regexNew).step (.new .new) es = some s)
    (hund : (ruleRuntime regexNew).Undisturbed es) :
    (ruleRuntime regexNew).Linearizable .new es s ∧
      ∀ call ∈ s.completed,
        (∀ other ∈ s.completed, other.1 ≠ call.1 → other.2.target ≠ call.2.target) →
        s.value.lists.Shows call.2 := by
  obtain ⟨hview, hlinearizable⟩ := Shared.linearizable_of_undisturbed h hund
  have hordered : s.Ordered :=
    Run.exec_invariant (fun _ _ _ => Shared.step_ordered) h (State.ordered_new _)
  refine ⟨hlinearizable, fun call hcall hother => ?_⟩
  have hlists : s.value.lists = (ruleRuntime regexNew).replay s.completed _ := hview
  rw [hlists]
  exact shows_replay hcall hordered.nodup hother _

namespace Sample

def rewriteRule (id : String) : RewriteRule Nat :=
  ⟨none, id, true, id, 0, ⟨[], "request", "*", none⟩, "header", "w", .null⟩

def mapRule (id : String) : MapRule :=
  ⟨id, true, "local", id, none, false, false, 0, "*", "/tmp/x", none, "w"⟩

def noRegex : String → Option Unit := fun _ => none

def bothManagers : List (Event (RuleCall Nat)) :=
  [.read 0 (.storeRewrite (rewriteRule "a") .preserve), .read 1 (.storeMap (mapRule "m") .preserve),
    .publish 0, .publish 1]

def twoSaves : List (Event (RuleCall Nat)) :=
  [.read 0 (.storeRewrite (rewriteRule "a") .preserve),
    .read 1 (.storeRewrite (rewriteRule "b") .preserve), .publish 0, .publish 1]

end Sample

/-- Saves on the two managers do not disturb each other. -/
theorem rule_updates_linearizable_both :
    ∃ s, Run.exec (ruleRuntime Sample.noRegex).step (.new .new) Sample.bothManagers = some s ∧
      (ruleRuntime Sample.noRegex).Linearizable .new Sample.bothManagers s := by
  refine ⟨_, rfl, (rule_updates_linearizable rfl ?_).1⟩
  intro fs gs hs c op hsplit d op' hpublish hread
  have hdisjoint : RuleKind.rewrite ≠ .map := by decide
  -- only the call of the map manager has a publication before its own
  simp [Sample.bothManagers, cons_eq_append_iff] at hsplit hread
  rcases hsplit with ⟨-, ⟨rfl, rfl⟩, hgs⟩ | ⟨-, ⟨rfl, rfl⟩, hgs⟩ <;>
    rcases hread with ⟨rfl, rfl⟩ | ⟨rfl, rfl⟩
  · simp_all [append_eq_cons_iff, cons_eq_append_iff]
  · exact hdisjoint
  · exact hdisjoint.symm
  · simp_all [append_eq_cons_iff, cons_eq_append_iff]

/-- Both saves return, and the list has only the second rule: no order of the two calls gives it. -/
theorem concurrent_save_lost :
    ∃ s, Run.exec (ruleRuntime Sample.noRegex).step (.new .new) Sample.twoSaves = some s ∧
      s.completed.map Prod.fst = [0, 1] ∧
      s.value.rewrite.map (fun entry => entry.id) = ["b"] ∧
      ¬ (ruleRuntime Sample.noRegex).Linearizable .new Sample.twoSaves s := by
  refine ⟨_, rfl, rfl, rfl, ?_⟩
  rintro ⟨order, hperm, -, hview⟩
  have hnodup : (order.map Prod.fst).Nodup := (hperm.map Prod.fst).nodup_iff.mpr (by decide)
  have hfirst : (0, .storeRewrite (Sample.rewriteRule "a") .preserve) ∈ order :=
    hperm.mem_iff.mpr mem_cons_self
  have hother : ∀ other ∈ order, other.1 ≠ 0 → other.2.target ≠ (.rewrite, "a") := by
    intro other hmem hne
    rcases mem_cons.mp (hperm.mem_iff.mp hmem) with rfl | hmem
    · exact absurd rfl hne
    · rw [mem_singleton.mp hmem]
      decide
  -- in every order the first rule is there in the end
  have hshows : ((ruleRuntime Sample.noRegex).replay order ⟨[], []⟩).Shows
      (.storeRewrite (Sample.rewriteRule "a") .preserve) :=
    shows_replay hfirst hnodup hother _
  have hlists : (ruleRuntime Sample.noRegex).replay order ⟨[], []⟩ = _ := hview.symm
  rw [hlists] at hshows
  obtain ⟨entry, hfind, -⟩ := hshows
  cases hfind

end AiProxy.Rules
