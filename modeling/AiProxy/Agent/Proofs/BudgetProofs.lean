import AiProxy.Agent.Proofs.GrantProofs

/-!
# The budget of a grant

A pending grant has no entry in the log. A grant that can be used has been approved once, has not been
closed, and its uses in the log and those it has left are no more than its approval gave (`GrantOk`).
-/

namespace AiProxy.Agent

open List
open GrantOutcome (closes approval? uses)

variable {log outcomes : List GrantOutcome} {grants : List AgentGrant} {grant : AgentGrant}
  {id : Text}
variable {o : GrantOutcome} {s : GrantState}

theorem approval?_of_ne (h : o.id ≠ id) : o.approval? id = none := by
  cases o with
  | approved id' option returned => exact if_neg h
  | denied | revoked | reserved | consumed => rfl

theorem uses_of_ne (h : o.id ≠ id) : o.uses id = false := by
  cases o with
  | reserved id' | consumed id' => exact beq_eq_false_iff_ne.mpr h
  | approved | denied | revoked => rfl

theorem closes_of_ne (h : o.id ≠ id) : o.closes id = false := by
  cases o with
  | denied id' found returned =>
    have hne : (id' == id) = false := beq_eq_false_iff_ne.mpr h
    simp [closes, hne]
  | revoked id' => exact beq_eq_false_iff_ne.mpr h
  | approved | reserved | consumed => rfl

theorem approvalsOf_append (id : Text) (log outcomes : List GrantOutcome) :
    approvalsOf id (log ++ outcomes) = approvalsOf id log ++ approvalsOf id outcomes :=
  filterMap_append

theorem usesOf_append (id : Text) (log outcomes : List GrantOutcome) :
    usesOf id (log ++ outcomes) = usesOf id log + usesOf id outcomes := countP_append

theorem approvalsOf_of_ne (h : ∀ o ∈ outcomes, o.id ≠ id) : approvalsOf id outcomes = [] :=
  filterMap_eq_nil_iff.mpr fun o ho => approval?_of_ne (h o ho)

theorem usesOf_of_ne (h : ∀ o ∈ outcomes, o.id ≠ id) : usesOf id outcomes = 0 :=
  countP_eq_zero.mpr fun o ho => by rw [uses_of_ne (h o ho)]; exact Bool.false_ne_true

/-- Entries without a use of the grant, and with an approval only if there was none before, keep the
log within the budget. -/
theorem WithinBudget.append_unused (h : WithinBudget id log) (huses : ∀ o ∈ outcomes, o.uses id = false)
    (happrovals : (approvalsOf id log).length + (approvalsOf id outcomes).length ≤ 1) :
    WithinBudget id (log ++ outcomes) := by
  have hzero : usesOf id outcomes = 0 :=
    countP_eq_zero.mpr fun o ho => by rw [huses o ho]; exact Bool.false_ne_true
  constructor
  · rw [approvalsOf_append, length_append]
    exact happrovals
  · rw [approvalsOf_append, usesOf_append, hzero, map_append, sum_append]
    exact le_trans h.bounded (Nat.le_add_right _ _)
  · rw [pairwise_append]
    refine ⟨h.closed, ?_, fun _ _ later hlater _ => huses later hlater⟩
    exact pairwise_of_forall_mem_list fun _ _ later hlater _ => huses later hlater

theorem WithinBudget.append_of_ne (h : WithinBudget id log) (hne : ∀ o ∈ outcomes, o.id ≠ id) :
    WithinBudget id (log ++ outcomes) := by
  refine h.append_unused (fun o ho => uses_of_ne (hne o ho)) ?_
  rw [approvalsOf_of_ne hne]
  exact h.approvedOnce

/-- The grant has been approved once, has not been closed, and has no more uses left than its approval
gave and the log does not have. -/
structure Usable (log : List GrantOutcome) (grant : AgentGrant) : Prop where
  open' : ∀ o ∈ log, o.closes grant.id = false
  budget : ∃ option, approvalsOf grant.id log = [option] ∧
    usesOf grant.id log + grant.remainingUses ≤ option.maxUses

structure GrantOk (log : List GrantOutcome) (grant : AgentGrant) : Prop where
  pending : grant.status = .pending → grant.approvedAt = none ∧ ∀ o ∈ log, o.id ≠ grant.id
  usable : grant.status.usable = true → Usable log grant

theorem GrantOk.of_not_live (h : grant.status.live = false) : GrantOk log grant := by
  constructor
  · intro hp
    rw [hp] at h
    cases h
  · intro hu
    cases hs : grant.status <;> rw [hs] at h hu <;> simp_all [AgentGrantStatus.live,
      AgentGrantStatus.usable]

theorem Usable.append (h : Usable log grant) (hopen : ∀ o ∈ outcomes, o.closes grant.id = false)
    (happrovals : approvalsOf grant.id outcomes = []) {grant' : AgentGrant}
    (hid : grant'.id = grant.id)
    (huses : usesOf grant.id outcomes + grant'.remainingUses ≤ grant.remainingUses) :
    Usable (log ++ outcomes) grant' := by
  obtain ⟨option, hoption, hbudget⟩ := h.budget
  constructor
  · rw [hid]
    exact forall_mem_append.mpr ⟨h.open', hopen⟩
  · refine ⟨option, ?_, ?_⟩
    · rw [hid, approvalsOf_append, hoption, happrovals, append_nil]
    · rw [hid, usesOf_append]
      omega

theorem GrantOk.append_of_ne (h : GrantOk log grant) (hne : ∀ o ∈ outcomes, o.id ≠ grant.id) :
    GrantOk (log ++ outcomes) grant := by
  constructor
  · intro hp
    obtain ⟨happroved, hlog⟩ := h.pending hp
    exact ⟨happroved, forall_mem_append.mpr ⟨hlog, hne⟩⟩
  · intro hu
    refine (h.usable hu).append (fun o ho => closes_of_ne (hne o ho)) (approvalsOf_of_ne hne) rfl ?_
    rw [usesOf_of_ne hne, zero_add]

theorem GrantOk.refresh (h : GrantOk log grant) (now : Time) : GrantOk log (grant.refresh now) := by
  rcases refresh_cases now grant with hsame | ⟨-, -, hexpired⟩
  · rw [hsame]
    exact h
  · rw [hexpired]
    exact .of_not_live rfl

theorem GrantOk.approved (h : GrantOk log grant) (hp : grant.status = .pending)
    (option : AgentGrantApprovalOption) (now : Time) (returned : Bool) :
    GrantOk (log ++ [.approved grant.id option returned]) (grant.approved option now) := by
  have hlog := (h.pending hp).2
  constructor
  · intro hpending
    cases hpending
  · intro _
    constructor
    · have hclosed : ∀ o ∈ log, o.closes grant.id = false := fun o ho => closes_of_ne (hlog o ho)
      exact forall_mem_append.mpr ⟨hclosed, forall_mem_singleton.mpr rfl⟩
    · refine ⟨option, ?_, ?_⟩
      · rw [approvalsOf_append]
        show approvalsOf grant.id log ++ _ = _
        rw [approvalsOf_of_ne hlog]
        simp [approvalsOf, approval?, AgentGrant.approved]
      · rw [usesOf_append]
        show usesOf grant.id log + _ + _ ≤ _
        rw [usesOf_of_ne hlog]
        simp [usesOf, uses, AgentGrant.approved]

theorem WithinBudget.approved (hgrant : GrantOk log grant) (hp : grant.status = .pending)
    (h : WithinBudget grant.id log) (option : AgentGrantApprovalOption) (returned : Bool) :
    WithinBudget grant.id (log ++ [.approved grant.id option returned]) := by
  refine h.append_unused (forall_mem_singleton.mpr rfl) ?_
  rw [approvalsOf_of_ne (hgrant.pending hp).2]
  simp [approvalsOf, approval?]

theorem GrantOk.denied (h : GrantOk log grant) (now : Time) (returned : Bool) :
    GrantOk (log ++ [.denied grant.id grant.status returned]) (grant.finishPending now .denied) := by
  by_cases hp : grant.status = .pending
  · have hend : grant.finishPending now .denied =
        { grant with status := .denied, expiresAt := now + seconds denialCooldownSecs } := by
      simp [AgentGrant.finishPending, hp]
    rw [hend]
    exact .of_not_live rfl
  · have hend : grant.finishPending now .denied = grant := if_neg hp
    rw [hend]
    refine ⟨fun hpending => absurd hpending hp, fun hu => ?_⟩
    refine (h.usable hu).append (forall_mem_singleton.mpr ?_) rfl rfl (Nat.le_of_eq (zero_add _))
    simp [closes, hp]

theorem GrantOk.revoke (log : List GrantOutcome) (grant : AgentGrant) :
    GrantOk log grant.revoke := by
  unfold AgentGrant.revoke
  split
  · exact .of_not_live rfl
  · rename_i hlive
    exact .of_not_live (by simpa using hlive)

theorem Usable.use (h : Usable log grant) (hw : WithinBudget grant.id log)
    (hleft : 0 < grant.remainingUses) (happrovals : approvalsOf grant.id outcomes = [])
    (hopen : ∀ o ∈ outcomes, o.closes grant.id = false) (huses : usesOf grant.id outcomes = 1) :
    WithinBudget grant.id (log ++ outcomes) ∧
      ∀ grant' : AgentGrant, grant'.id = grant.id →
        grant'.remainingUses = grant.remainingUses - 1 → Usable (log ++ outcomes) grant' := by
  obtain ⟨option, hoption, hbudget⟩ := h.budget
  refine ⟨⟨?_, ?_, ?_⟩, fun grant' hid hremaining => ?_⟩
  · rw [approvalsOf_append, happrovals, append_nil]
    exact hw.approvedOnce
  · rw [approvalsOf_append, usesOf_append, happrovals, append_nil, hoption]
    simp only [map_cons, map_nil, sum_cons, sum_nil, add_zero]
    omega
  · have hnone : ∀ o ∈ log ++ outcomes, o.closes grant.id = false :=
      forall_mem_append.mpr ⟨h.open', hopen⟩
    refine pairwise_of_forall_mem_list fun earlier hearlier _ _ hclosed => ?_
    rw [hnone earlier hearlier] at hclosed
    cases hclosed
  · refine h.append hopen happrovals hid ?_
    omega

theorem GrantOk.consumed (h : GrantOk log grant) (hw : WithinBudget grant.id log)
    (hstatus : grant.status = .approved) (hleft : 0 < grant.remainingUses) :
    GrantOk (log ++ [.consumed grant.id]) grant.consume ∧
      WithinBudget grant.id (log ++ [.consumed grant.id]) := by
  have husable : grant.status.usable = true := by rw [hstatus]; rfl
  have hopen : ∀ o ∈ [GrantOutcome.consumed grant.id], o.closes grant.id = false :=
    forall_mem_singleton.mpr rfl
  have huses : usesOf grant.id [.consumed grant.id] = 1 := by simp [usesOf, uses]
  obtain ⟨hwithin, huse⟩ := (h.usable husable).use hw hleft rfl hopen huses
  refine ⟨?_, hwithin⟩
  unfold AgentGrant.consume
  split
  · exact .of_not_live rfl
  · refine ⟨fun hpending => ?_, fun _ => huse _ rfl rfl⟩
    rw [show grant.status = .pending from hpending] at hstatus
    cases hstatus

theorem usesOf_reserved {ids : List Text} (hids : ids.Nodup) (hid : id ∈ ids) :
    usesOf id (ids.map .reserved) = 1 := by
  rw [usesOf, countP_map]
  show ids.count id = 1
  exact count_eq_one_of_mem hids hid

theorem GrantOk.reserved (h : GrantOk log grant) (hw : WithinBudget grant.id log) {ids : List Text}
    (hids : ids.Nodup) (hid : grant.id ∈ ids) (husable : grant.status.usable = true)
    (hleft : 0 < grant.remainingUses) :
    GrantOk (log ++ ids.map .reserved) grant.reserve ∧
      WithinBudget grant.id (log ++ ids.map .reserved) := by
  have happrovals : approvalsOf grant.id (ids.map .reserved) = [] :=
    filterMap_eq_nil_iff.mpr (forall_mem_map.mpr fun _ _ => rfl)
  have hopen : ∀ o ∈ ids.map GrantOutcome.reserved, o.closes grant.id = false :=
    forall_mem_map.mpr fun _ _ => rfl
  obtain ⟨hwithin, huse⟩ :=
    (h.usable husable).use hw hleft happrovals hopen (usesOf_reserved hids hid)
  refine ⟨⟨fun hpending => ?_, fun _ => huse grant.reserve rfl rfl⟩, hwithin⟩
  cases hpending

theorem GrantOk.finished (h : GrantOk log grant) (completion : Completion) :
    GrantOk log (grant.finish completion) := by
  unfold AgentGrant.finish
  split
  · rename_i hexecuting
    have husable : grant.status.usable = true := by rw [hexecuting]; rfl
    refine ⟨fun hpending => ?_, fun _ => ?_⟩
    · cases completion <;> simp [completedGrantStatus, Completion.status] at hpending
      all_goals split at hpending <;> cases hpending
    · exact ⟨(h.usable husable).open', (h.usable husable).budget⟩
  · exact h

/-! ## The store -/

structure StoreOk (issued : List Text) (log : List GrantOutcome) (grants : List AgentGrant) :
    Prop where
  keyed : Keyed grants
  known : ∀ grant ∈ grants, grant.id ∈ issued
  logged : ∀ o ∈ log, o.id ∈ issued
  grant : ∀ grant ∈ grants, GrantOk log grant
  budget : ∀ id, WithinBudget id log

section StoreOk

variable {issued : List Text} {persisted : Except String Unit}
variable {f : AgentGrant → AgentGrant} {waiter : Waiter}

/-- What a request that waits knows of its grant. -/
structure WaiterOk (waiter : Waiter) : Prop where
  pending : waiter.grant.status = .pending
  request : waiter.grant.requestId = waiter.grant.id
  undecided : waiter.grant.approvedAt = none

theorem approvals_of_mem (h : Keyed grants) (hmem : grant ∈ grants)
    (hf : (f grant).id = grant.id ∧ (f grant).requestId = grant.requestId)
    (hpending : grant.status = .pending) (option : AgentGrantApprovalOption) (r : Except String AgentGrant) :
    approvals grant.id option grants (grants.map (Agent.onGrant grant.id f), r) =
      if (f grant).status = .approved then [.approved grant.id option r.isOk] else [] := by
  obtain ⟨hkeyed, hmem'⟩ := h.onGrant hmem hf
  have hfind := hkeyed.find?_requestId_of_mem hmem'
  rw [hf.1] at hfind
  unfold approvals
  rw [h.find?_requestId_of_mem hmem, hfind]
  simp only [hpending, true_and]

theorem approvals_of_unchanged (id : Text) (option : AgentGrantApprovalOption)
    (grants : List AgentGrant) (r : Except String AgentGrant) :
    approvals id option grants (grants, r) = [] := by
  unfold approvals
  cases hfind : grants.find? (·.requestId == id) with
  | none => rfl
  | some grant =>
    refine if_neg fun hboth => ?_
    rw [hboth.1] at hboth
    cases hboth.2

theorem map_onGrant_of_find?_none
    (h : grants.find? (·.id == id) = none) : grants.map (Agent.onGrant id f) = grants :=
  map_onGrant_of_not_mem fun grant hgrant => by simpa using find?_eq_none.mp h grant hgrant

variable (h : StoreOk issued log grants)

include h

theorem StoreOk.map
    (hf : ∀ grant ∈ grants, (f grant).id = grant.id ∧ (f grant).requestId = grant.requestId)
    (hlogged : ∀ o ∈ outcomes, ∃ grant ∈ grants, grant.id = o.id)
    (hok : ∀ grant ∈ grants, GrantOk (log ++ outcomes) (f grant) ∧
      WithinBudget grant.id (log ++ outcomes)) :
    StoreOk issued (log ++ outcomes) (grants.map f) := by
  refine ⟨h.keyed.map hf, ?_, ?_, ?_, fun id => ?_⟩
  · refine forall_mem_map.mpr fun grant hgrant => ?_
    rw [(hf grant hgrant).1]
    exact h.known grant hgrant
  · refine forall_mem_append.mpr ⟨h.logged, fun o ho => ?_⟩
    obtain ⟨grant, hgrant, hgid⟩ := hlogged o ho
    rw [← hgid]
    exact h.known grant hgrant
  · exact forall_mem_map.mpr fun grant hgrant => (hok grant hgrant).1
  · by_cases hstored : ∃ grant ∈ grants, grant.id = id
    · obtain ⟨grant, hgrant, rfl⟩ := hstored
      exact (hok grant hgrant).2
    · refine (h.budget id).append_of_ne fun o ho heq => hstored ?_
      obtain ⟨grant, hgrant, hgid⟩ := hlogged o ho
      exact ⟨grant, hgrant, hgid.trans heq⟩

theorem StoreOk.map_quiet
    (hf : ∀ grant ∈ grants, ((f grant).id = grant.id ∧ (f grant).requestId = grant.requestId) ∧
      GrantOk log (f grant)) : StoreOk issued log (grants.map f) := by
  have hall : StoreOk issued (log ++ []) (grants.map f) := by
    refine h.map (fun grant hgrant => (hf grant hgrant).1) (forall_mem_nil _) fun grant hgrant => ?_
    rw [append_nil]
    exact ⟨(hf grant hgrant).2, h.budget grant.id⟩
  rwa [append_nil] at hall

theorem StoreOk.onGrant (hmem : grant ∈ grants)
    (hkey : (f grant).id = grant.id ∧ (f grant).requestId = grant.requestId)
    (hlogged : ∀ o ∈ outcomes, o.id = grant.id)
    (hok : GrantOk (log ++ outcomes) (f grant) ∧ WithinBudget grant.id (log ++ outcomes)) :
    StoreOk issued (log ++ outcomes) (grants.map (onGrant grant.id f)) := by
  have hone : ∀ g ∈ grants, Agent.onGrant grant.id f g = f grant ∧ g = grant ∨
      Agent.onGrant grant.id f g = g ∧ g.id ≠ grant.id := by
    intro g hg
    by_cases hgid : g.id = grant.id
    · have heq := h.keyed.eq_of_id hg hmem hgid
      rw [heq, Agent.onGrant, if_pos rfl]
      exact .inl ⟨rfl, rfl⟩
    · exact .inr ⟨if_neg hgid, hgid⟩
  refine h.map (fun g hg => ?_) (fun o ho => ⟨grant, hmem, (hlogged o ho).symm⟩) fun g hg => ?_
  · rcases hone g hg with ⟨hf, rfl⟩ | ⟨hf, -⟩
    · rw [hf]
      exact hkey
    · rw [hf]
      exact ⟨rfl, rfl⟩
  · rcases hone g hg with ⟨hf, rfl⟩ | ⟨hf, hne⟩
    · rw [hf]
      exact hok
    · rw [hf]
      have hothers : ∀ o ∈ outcomes, o.id ≠ g.id := fun o ho heq => hne (heq ▸ hlogged o ho)
      exact ⟨(h.grant g hg).append_of_ne hothers, (h.budget g.id).append_of_ne hothers⟩

theorem StoreOk.refreshExpired (now : Time) : StoreOk issued log (refreshExpired now grants) :=
  h.map_quiet fun grant hgrant => ⟨sameKey_refresh now grant, (h.grant grant hgrant).refresh now⟩

theorem StoreOk.sublist {grants' : List AgentGrant}
    (hsub : grants'.Sublist grants) : StoreOk issued log grants' where
  keyed := ⟨(hsub.map _).nodup h.keyed.nodup, fun g hg => h.keyed.request g (hsub.subset hg)⟩
  known := fun g hg => h.known g (hsub.subset hg)
  logged := h.logged
  grant := fun g hg => h.grant g (hsub.subset hg)
  budget := h.budget

theorem StoreOk.issue (id : Text) : StoreOk (id :: issued) log grants where
  keyed := h.keyed
  known := fun g hg => mem_cons_of_mem id (h.known g hg)
  logged := fun o ho => mem_cons_of_mem id (h.logged o ho)
  grant := h.grant
  budget := h.budget

theorem StoreOk.push (req : AgentGrantRequest)
    (requester : GrantRequester) {uuid : Text} (hnew : grantId uuid ∉ issued) (now : Time) :
    StoreOk (grantId uuid :: issued) log (grants ++ [newGrant req requester uuid now]) where
  keyed := by
    constructor
    · rw [map_append, nodup_append]
      refine ⟨h.keyed.nodup, nodup_singleton _, ?_⟩
      intro a ha b hb hab
      obtain ⟨grant, hgrant, rfl⟩ := mem_map.mp ha
      rw [mem_singleton.mp hb] at hab
      have hissued := h.known grant hgrant
      rw [hab] at hissued
      exact hnew hissued
    · exact forall_mem_append.mpr ⟨h.keyed.request, forall_mem_singleton.mpr rfl⟩
  known := forall_mem_append.mpr ⟨(h.issue _).known, forall_mem_singleton.mpr mem_cons_self⟩
  logged := fun o ho => mem_cons_of_mem _ (h.logged o ho)
  grant := by
    refine forall_mem_append.mpr ⟨h.grant, forall_mem_singleton.mpr ?_⟩
    refine ⟨fun _ => ⟨rfl, fun o ho heq => ?_⟩, fun husable => by cases husable⟩
    have hissued := h.logged o ho
    rw [heq] at hissued
    exact hnew hissued
  budget := h.budget

theorem StoreOk.waiterOk (hmem : waiter.grant ∈ grants)
    (hpending : waiter.grant.status = .pending) : WaiterOk waiter :=
  ⟨hpending, h.keyed.request _ hmem, ((h.grant _ hmem).pending hpending).1⟩

theorem StoreOk.writeBack (hw : WaiterOk waiter) :
    StoreOk issued log (grants.map (Agent.onGrant waiter.grant.id fun _ => waiter.expired)) := by
  refine h.map_quiet fun grant hgrant => ?_
  by_cases hid : grant.id = waiter.grant.id
  · rw [Agent.onGrant, if_pos hid, h.keyed.request grant hgrant, hid]
    exact ⟨⟨rfl, hw.request⟩, .of_not_live rfl⟩
  · rw [Agent.onGrant, if_neg hid]
    exact ⟨⟨rfl, rfl⟩, h.grant grant hgrant⟩

theorem StoreOk.waitForGrant (times : RequestTimes) (id : Text) :
    StoreOk issued log (waitForGrant times id grants).1 ∧
      ∀ waiter, (waitForGrant times id grants).2.waiter? = some waiter → WaiterOk waiter := by
  obtain ⟨hlist, hwaits⟩ := waitForGrant_cases h.keyed times id
  constructor
  · rcases hlist with hsame | ⟨waiter, hmem, -, hpending, hmap⟩
    · rw [hsame]
      exact h
    · rw [hmap]
      exact h.writeBack (h.waiterOk hmem hpending)
  · intro waiter hw
    obtain ⟨hmem, hpending⟩ := hwaits waiter hw
    exact h.waiterOk hmem hpending

theorem StoreOk.wake (hw : WaiterOk waiter) (result : WaitResult) (checked : Nat) :
    StoreOk issued log (wake waiter result checked grants).1 ∧
      ∀ waiter', (wake waiter result checked grants).2.waiter? = some waiter' → WaiterOk waiter' := by
  obtain ⟨hlist, hwaits⟩ := wake_cases h.keyed waiter result checked
  constructor
  · rcases hlist with hsame | ⟨-, -, -, hmap⟩ | ⟨fresh, hmem, -, hpending, hmap⟩
    · rw [hsame]
      exact h
    · rw [hmap]
      exact h.writeBack hw
    · rw [hmap]
      exact h.writeBack (h.waiterOk hmem hpending)
  · intro waiter' hw'
    obtain ⟨hpending, rfl | hmem⟩ := hwaits waiter' hw'
    · exact hw
    · exact h.waiterOk hmem hpending

theorem StoreOk.request (times : RequestTimes) {uuid : Text} (hnew : grantId uuid ∉ issued)
    (req : AgentGrantRequest) (requester : GrantRequester) :
    StoreOk (grantId uuid :: issued) log (request times persisted uuid req requester grants).1 ∧
      ∀ waiter, (request times persisted uuid req requester grants).2.waiter? = some waiter →
        WaiterOk waiter := by
  have hrefreshed := h.refreshExpired times.refreshed
  have hpushed := (hrefreshed.sublist (trimGrants_suffix _).sublist).push req requester hnew times.now
  rcases request_cases times persisted uuid req requester grants with
    ⟨_, hr⟩ | ⟨_, hr⟩ | ⟨existing, -, -, hr⟩ | ⟨_, hr⟩ | hr
  · rw [hr]
    exact ⟨h.issue _, fun waiter hw => by cases hw⟩
  · rw [hr]
    exact ⟨hrefreshed.issue _, fun waiter hw => by cases hw⟩
  · rw [hr]
    exact (hrefreshed.issue _).waitForGrant times existing.id
  · rw [hr]
    exact ⟨hpushed, fun waiter hw => by cases hw⟩
  · rw [hr]
    exact hpushed.waitForGrant times (grantId uuid)

theorem StoreOk.approve (now : Time) (id : Text) (option : AgentGrantApprovalOption) :
    StoreOk issued
      (log ++ approvals id option grants (approve now persisted id option grants))
      (approve now persisted id option grants).1 := by
  rcases approve_cases h.keyed persisted now id option with
    ⟨error, hr⟩ | ⟨grant, hmem, rfl, hpending, ⟨error, hr⟩ | hr⟩
  · rw [hr, approvals_of_unchanged, append_nil]
    exact h
  · rw [hr, approvals_of_mem h.keyed hmem ⟨rfl, rfl⟩ hpending, if_neg (by simp), append_nil]
    have hexpired : StoreOk issued (log ++ [])
        (grants.map (Agent.onGrant grant.id ({ · with status := .expired }))) := by
      refine h.onGrant hmem ⟨rfl, rfl⟩ (forall_mem_nil _) ⟨.of_not_live rfl, ?_⟩
      rw [append_nil]
      exact h.budget grant.id
    rwa [append_nil] at hexpired
  · rw [hr, approvals_of_mem h.keyed hmem ⟨rfl, rfl⟩ hpending]
    refine h.onGrant hmem ⟨rfl, rfl⟩ (forall_mem_singleton.mpr rfl) ⟨?_, ?_⟩
    · exact (h.grant grant hmem).approved hpending option now _
    · exact (h.budget grant.id).approved (h.grant grant hmem) hpending option _

theorem StoreOk.onGrant_unused (hmem : grant ∈ grants)
    (hkey : (f grant).id = grant.id ∧ (f grant).requestId = grant.requestId)
    {o : GrantOutcome} (ho : o.id = grant.id) (huses : o.uses grant.id = false)
    (happrovals : approvalsOf grant.id [o] = []) (hok : GrantOk (log ++ [o]) (f grant)) :
    StoreOk issued (log ++ [o]) (grants.map (Agent.onGrant grant.id f)) := by
  refine h.onGrant hmem hkey (forall_mem_singleton.mpr ho) ⟨hok, ?_⟩
  refine (h.budget grant.id).append_unused (forall_mem_singleton.mpr huses) ?_
  rw [happrovals]
  exact (h.budget grant.id).approvedOnce

theorem StoreOk.deny (now : Time) (id : Text) (r : Except String AgentGrant) :
    StoreOk issued (log ++ denials id grants r) (deny now persisted id grants).1 := by
  rw [deny_fst h.keyed]
  unfold denials
  cases hfind : grants.find? (·.requestId == id) with
  | none =>
    rw [map_onGrant_of_not_mem (h.keyed.not_mem_of_find?_requestId hfind)]
    simpa using h
  | some grant =>
    obtain ⟨hmem, rfl⟩ := h.keyed.find?_requestId hfind
    exact h.onGrant_unused hmem (sameKey_finishPending now .denied grant) rfl rfl rfl
      ((h.grant grant hmem).denied now _)

theorem StoreOk.revoke (id : Text) :
    StoreOk issued (log ++ revocations id grants) (revoke persisted id grants).1 := by
  rw [revoke_fst h.keyed]
  unfold revocations
  cases hfind : grants.find? (·.id == id) with
  | none =>
    rw [map_onGrant_of_find?_none hfind]
    simpa using h
  | some grant =>
    obtain ⟨hmem, rfl⟩ := find?_id hfind
    exact h.onGrant_unused hmem (sameKey_revoke grant) rfl rfl rfl (.revoke _ grant)

theorem StoreOk.markExecuting (ids : List Text) :
    StoreOk issued (log ++ reservations ids grants) (markExecuting persisted ids grants).1 := by
  unfold reservations Agent.markExecuting
  cases hr : reserveGrants grants ids with
  | error error => simpa using h
  | ok grants' =>
    obtain ⟨hids, hplaces, rfl⟩ := reserveGrants_ok h.keyed hr
    refine h.map (fun grant _ => ?_) (fun o ho => ?_) fun grant hgrant => ?_
    · split <;> exact ⟨rfl, rfl⟩
    · obtain ⟨id, hid, rfl⟩ := mem_map.mp ho
      obtain ⟨grant, hgrant, hgid, -⟩ := hplaces id hid
      exact ⟨grant, hgrant, hgid⟩
    · by_cases hid : grant.id ∈ ids
      · rw [if_pos hid]
        obtain ⟨grant', hgrant', hgid, husable, hleft⟩ := hplaces grant.id hid
        rw [h.keyed.eq_of_id hgrant' hgrant hgid] at husable hleft
        exact (h.grant grant hgrant).reserved (h.budget grant.id) hids hid husable hleft
      · rw [if_neg hid]
        have hne : ∀ o ∈ ids.map GrantOutcome.reserved, o.id ≠ grant.id :=
          forall_mem_map.mpr fun id hid' heq => hid (heq ▸ hid')
        exact ⟨(h.grant grant hgrant).append_of_ne hne, (h.budget grant.id).append_of_ne hne⟩

theorem StoreOk.consume (now : Time)
    (params : ConsumeAgentGrantParams) (requester : GrantRequester) :
    StoreOk issued (log ++ consumptions now params requester grants)
      (consume now persisted params requester grants).1 := by
  have hrefreshed := h.refreshExpired now
  unfold consumptions
  rcases consume_fst h.keyed persisted now params requester with
    ⟨error, hcheck, hfst⟩ | ⟨grant, hcheck, hfst⟩
  · rw [hcheck, hfst]
    simpa using hrefreshed
  · rw [hcheck, hfst]
    obtain ⟨hmem, hid, hstatus, hleft⟩ := checkConsume_ok hcheck
    rw [← hid]
    exact hrefreshed.onGrant hmem (sameKey_consume grant) (forall_mem_singleton.mpr rfl)
      ((hrefreshed.grant grant hmem).consumed (h.budget grant.id) hstatus hleft)

theorem StoreOk.finish (ids : List Text) (completion : Completion) :
    StoreOk issued log (finish persisted ids completion grants).1 := by
  refine h.map_quiet fun grant hgrant => ?_
  split
  · exact ⟨sameKey_finish completion grant, (h.grant grant hgrant).finished completion⟩
  · exact ⟨⟨rfl, rfl⟩, h.grant grant hgrant⟩

end StoreOk

/-! ## Runs -/

structure GrantState.Ok (s : GrantState) : Prop where
  store : StoreOk s.issued s.log s.grants
  waiters : ∀ thread waiter, s.waiters thread = some waiter → WaiterOk waiter

theorem GrantState.Ok.empty : GrantState.empty.Ok where
  store := by
    refine ⟨⟨nodup_nil, ?_⟩, ?_, ?_, ?_, fun id => ⟨Nat.zero_le 1, Nat.le_refl 0, .nil⟩⟩
    all_goals intro x hx; cases hx
  waiters := fun thread waiter hw => by cases hw

theorem GrantState.Ok.after (h : s.Ok)
    (hstore : StoreOk s.issued (s.log ++ outcomes) grants) : (s.after grants outcomes).Ok :=
  ⟨hstore, h.waiters⟩

theorem GrantState.Ok.reply (h : s.Ok) {thread : Nat} {issued : List Text}
    {r : List AgentGrant × GrantReply} (hstore : StoreOk issued s.log r.1)
    (hwaiter : ∀ waiter, r.2.waiter? = some waiter → WaiterOk waiter) :
    ({ s.reply thread r with issued := issued } : GrantState).Ok := by
  refine ⟨hstore, fun thread' waiter hw => ?_⟩
  by_cases ht : thread' = thread
  · subst ht
    refine hwaiter waiter ?_
    simpa [GrantState.reply] using hw
  · refine h.waiters thread' waiter ?_
    simpa [GrantState.reply, Function.update_of_ne ht] using hw

theorem grantStep_ok {s' : GrantState} {e : GrantEvent} (h : s.Ok) (hs : grantStep s e = some s') :
    s'.Ok := by
  cases e with
  | list now | authorize now requester capability fingerprint grantIds =>
    cases hs
    exact h.after (by rw [append_nil]; exact h.store.refreshExpired now)
  | request thread times persisted uuid req requester =>
    simp only [grantStep] at hs
    split at hs
    · rename_i hfree
      cases hs
      obtain ⟨hstore, hwaiter⟩ := h.store.request times hfree.2 req requester
      exact h.reply hstore hwaiter
    · cases hs
  | wake thread result checked =>
    obtain ⟨waiter, hw, rfl⟩ := Option.map_eq_some_iff.mp hs
    obtain ⟨hstore, hwaiter⟩ := h.store.wake (h.waiters thread waiter hw) result checked
    exact h.reply hstore hwaiter
  | approve now persisted requestId option =>
    cases hs
    exact h.after (h.store.approve now requestId option)
  | deny now persisted requestId =>
    cases hs
    exact h.after (h.store.deny now requestId _)
  | revoke persisted grantId =>
    cases hs
    exact h.after (h.store.revoke grantId)
  | markExecuting persisted grantIds =>
    cases hs
    exact h.after (h.store.markExecuting grantIds)
  | consume now persisted params requester =>
    cases hs
    exact h.after (h.store.consume now params requester)
  | finish persisted grantIds completion =>
    cases hs
    exact h.after (by rw [append_nil]; exact h.store.finish grantIds completion)
  | clear =>
    cases hs
    exact h.after (by rw [append_nil]; exact h.store.sublist (nil_sublist _))

/-- A grant is approved once at the most, it is used no more often than its approval allows, and never
after a revocation of it or a denial that found it pending, in every interleaving of the calls. -/
theorem grants_within_budget {events : List GrantEvent} {s : GrantState}
    (h : Run.exec grantStep .empty events = some s) (id : Text) : WithinBudget id s.log :=
  (Run.exec_invariant (fun _ _ _ => grantStep_ok) h .empty).store.budget id

namespace Sample

def grantRequest : AgentGrantRequest where
  capability := .readBodies
  actionFingerprint := "a"
  actionSummary := "s"
  reason := "r"

def requester : GrantRequester := ⟨"c", "1", "m"⟩

def grantId₁ : Text := grantId "1"

def consumeParams : ConsumeAgentGrantParams := ⟨grantId₁, .readBodies, "a"⟩

def requested : GrantEvent :=
  .request 0 ⟨0, 0, 1, 1, 2⟩ (.ok ()) "1" grantRequest requester

def approvedOnce : GrantEvent := .approve (seconds 5) (.ok ()) grantId₁ .once

def usedOnce : List GrantEvent :=
  [requested, approvedOnce, .markExecuting (.ok ()) [grantId₁], .finish (.ok ()) [grantId₁] .failed,
    .markExecuting (.ok ()) [grantId₁], .revoke (.ok ()) grantId₁]

def deniedLate : List GrantEvent :=
  [requested, approvedOnce, .deny (seconds 6) (.ok ()) grantId₁,
    .consume (seconds 7) (.ok ()) consumeParams requester]

end Sample

open Sample (deniedLate grantId₁ usedOnce)

theorem grants_within_budget_used_once :
    ∃ s, Run.exec grantStep .empty usedOnce = some s ∧
      s.log = [.approved grantId₁ .once true, .reserved grantId₁,
        .revoked grantId₁] ∧
      WithinBudget grantId₁ s.log := by
  have hrun : (Run.exec grantStep .empty usedOnce).any (fun s => decide
      (s.log = [.approved grantId₁ .once true, .reserved grantId₁,
        .revoked grantId₁])) = true := by decide
  obtain ⟨s, hs, hlog⟩ := Run.exists_of_exec_any hrun
  exact ⟨s, hs, of_decide_eq_true hlog, grants_within_budget hs grantId₁⟩

/-- A denial of a grant that is not pending any more returns and leaves it usable. -/
theorem used_after_denial :
    ¬ ∀ events s id, Run.exec grantStep .empty events = some s →
      s.log.Pairwise fun earlier later => earlier.refuses id = true → later.uses id = false := by
  intro hall
  have hrun : (Run.exec grantStep .empty deniedLate).any (fun s => decide
      (s.log = [.approved grantId₁ .once true, .denied grantId₁ .approved true,
        .consumed grantId₁])) = true := by decide
  obtain ⟨s, hs, hlog⟩ := Run.exists_of_exec_any hrun
  have hpairs := hall deniedLate s grantId₁ hs
  rw [of_decide_eq_true hlog] at hpairs
  revert hpairs
  decide

end AiProxy.Agent
