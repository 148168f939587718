import AiProxy.Agent.Proofs.BudgetProofs

/-!
# Decisions of the user

A grant that was approved has the time of its approval, and a grant that was denied is `Denied`
(`Intact`).
-/

namespace AiProxy.Agent

open Option List

variable {log outcomes : List GrantOutcome} {grants : List AgentGrant} {grant : AgentGrant}
  {id : Text}
variable {f : AgentGrant → AgentGrant} {waiter : Waiter} {s : GrantState}
  {persisted : Except String Unit}

/-! ## Grants that were decided on -/

def DecidedIn (log : List GrantOutcome) (id : Text) : Prop := log.any (·.decides id) = true

/-- The grant still has its decision. -/
def Intact (log : List GrantOutcome) (grant : AgentGrant) : Prop :=
  DecidedIn log grant.id → grant.approvedAt.isSome = true ∨ grant.status = .denied

theorem id_of_decides {o : GrantOutcome} (h : o.decides id = true) : o.id = id := by
  cases o with
  | approved id' option returned =>
    simp only [GrantOutcome.decides, Bool.and_eq_true, beq_iff_eq] at h
    exact h.1
  | denied id' found returned =>
    simp only [GrantOutcome.decides, Bool.and_eq_true, beq_iff_eq] at h
    exact h.1.1
  | revoked | reserved | consumed => cases h

theorem not_decidedIn_of_ne (h : ∀ o ∈ log, o.id ≠ id) : ¬ DecidedIn log id := by
  intro hd
  obtain ⟨o, ho, hdecides⟩ := any_eq_true.mp hd
  exact h o ho (id_of_decides hdecides)

theorem GrantOk.not_decidedIn (h : GrantOk log grant) (hp : grant.status = .pending) :
    ¬ DecidedIn log grant.id := not_decidedIn_of_ne (h.pending hp).2

theorem decidedIn_append (h : ∀ o ∈ outcomes, o.decides id = false) :
    DecidedIn (log ++ outcomes) id ↔ DecidedIn log id := by
  have hnone : outcomes.any (·.decides id) = false :=
    any_eq_false.mpr fun o ho => by rw [h o ho]; exact Bool.false_ne_true
  unfold DecidedIn
  rw [any_append, hnone, Bool.or_false]

theorem decides_of_ne {o : GrantOutcome} (h : o.id ≠ id) : o.decides id = false := by
  cases hd : o.decides id with
  | false => rfl
  | true => exact absurd (id_of_decides hd) h

section

variable (h : Intact log grant)

include h

theorem Intact.append (hd : ∀ o ∈ outcomes, o.decides grant.id = false) :
    Intact (log ++ outcomes) grant := fun hdecided => h ((decidedIn_append hd).mp hdecided)

theorem Intact.keep {grant' : AgentGrant} (hid : grant'.id = grant.id)
    (happroved : grant'.approvedAt = grant.approvedAt)
    (hdenied : grant.status ≠ .denied) : Intact log grant' := by
  intro hdecided
  rw [hid] at hdecided
  exact .inl (happroved ▸ (h hdecided).resolve_right hdenied)

theorem Intact.refresh (now : Time) : Intact log (grant.refresh now) := by
  rcases refresh_cases now grant with hsame | ⟨hlive, -, hexpired⟩
  · rw [hsame]
    exact h
  · rw [hexpired]
    refine h.keep rfl rfl fun hdenied => ?_
    rw [hdenied] at hlive
    cases hlive

theorem Intact.revoke : Intact log grant.revoke := by
  unfold AgentGrant.revoke
  split
  · rename_i hlive
    refine h.keep rfl rfl fun hdenied => ?_
    rw [hdenied] at hlive
    cases hlive
  · exact h

theorem Intact.finish (completion : Completion) : Intact log (grant.finish completion) := by
  unfold AgentGrant.finish
  split
  · rename_i hexecuting
    refine h.keep rfl rfl fun hdenied => ?_
    rw [hdenied] at hexecuting
    cases hexecuting
  · exact h

theorem Intact.consume (hstatus : grant.status = .approved) : Intact log grant.consume := by
  unfold AgentGrant.consume
  split <;> refine h.keep rfl rfl fun hdenied => ?_
  all_goals
    rw [hdenied] at hstatus
    cases hstatus

theorem Intact.reserve (husable : grant.status.usable = true) : Intact log grant.reserve := by
  refine h.keep rfl rfl fun hdenied => ?_
  rw [hdenied] at husable
  cases husable

end

/-! ## The store -/

def AllIntact (log : List GrantOutcome) (grants : List AgentGrant) : Prop :=
  ∀ grant ∈ grants, Intact log grant

theorem AllIntact.map (h : ∀ grant ∈ grants, Intact log (f grant)) : AllIntact log (grants.map f) :=
  forall_mem_map.mpr h

theorem AllIntact.append_nil (h : AllIntact log grants) : AllIntact (log ++ []) grants := by
  rw [List.append_nil]
  exact h

theorem AllIntact.onGrant (h : AllIntact log grants) (hk : Keyed grants) (hmem : grant ∈ grants)
    (hlogged : ∀ o ∈ outcomes, o.id = grant.id) (hf : Intact (log ++ outcomes) (f grant)) :
    AllIntact (log ++ outcomes) (grants.map (onGrant grant.id f)) := by
  refine AllIntact.map fun g hg => ?_
  by_cases hid : g.id = grant.id
  · rw [hk.eq_of_id hg hmem hid, Agent.onGrant, if_pos rfl]
    exact hf
  · rw [Agent.onGrant, if_neg hid]
    refine (h g hg).append fun o ho => decides_of_ne ?_
    rw [hlogged o ho]
    exact fun heq => hid heq.symm

theorem AllIntact.writeBack (h : AllIntact log grants)
    (hundecided : ∀ grant ∈ grants, grant.id = waiter.grant.id → ¬ DecidedIn log grant.id) :
    AllIntact log (grants.map (Agent.onGrant waiter.grant.id fun _ => waiter.expired)) := by
  refine AllIntact.map fun grant hgrant => ?_
  by_cases hid : grant.id = waiter.grant.id
  · rw [Agent.onGrant, if_pos hid]
    intro hdecided
    have hgid : DecidedIn log grant.id := by
      rw [hid]
      exact hdecided
    exact absurd hgid (hundecided grant hgrant hid)
  · rw [Agent.onGrant, if_neg hid]
    exact h grant hgrant

section StoreOk

variable {issued : List Text} (hok : StoreOk issued log grants) (h : AllIntact log grants)
include hok h

theorem AllIntact.writeBack_fresh (hmem : waiter.grant ∈ grants)
    (hpending : waiter.grant.status = .pending) :
    AllIntact log (grants.map (Agent.onGrant waiter.grant.id fun _ => waiter.expired)) := by
  refine h.writeBack fun grant hgrant hid => ?_
  rw [hok.keyed.eq_of_id hgrant hmem hid]
  exact (hok.grant _ hmem).not_decidedIn hpending

theorem AllIntact.waitForGrant (times : RequestTimes) (id : Text) :
    AllIntact log (waitForGrant times id grants).1 := by
  rcases (waitForGrant_cases hok.keyed times id).1 with
    hsame | ⟨waiter, hmem, -, hpending, hmap⟩
  · rw [hsame]
    exact h
  · rw [hmap]
    exact h.writeBack_fresh hok hmem hpending

omit hok in
theorem AllIntact.refreshExpired (now : Time) : AllIntact log (refreshExpired now grants) :=
  AllIntact.map fun grant hgrant => (h grant hgrant).refresh now

theorem AllIntact.request (times : RequestTimes) {uuid : Text}
    (hnew : grantId uuid ∉ issued) (req : AgentGrantRequest) (requester : GrantRequester) :
    AllIntact log (request times persisted uuid req requester grants).1 := by
  have hrefreshed := h.refreshExpired times.refreshed
  have hokRefreshed := hok.refreshExpired times.refreshed
  have htrim := trimGrants_suffix (Agent.refreshExpired times.refreshed grants)
  have hokPushed := (hokRefreshed.sublist htrim.sublist).push req requester hnew times.now
  have hpushed : AllIntact log (trimGrants (Agent.refreshExpired times.refreshed grants) ++
      [newGrant req requester uuid times.now]) := by
    intro grant hgrant
    rcases mem_append.mp hgrant with hgrant' | hgrant'
    · exact hrefreshed grant (htrim.subset hgrant')
    · rw [mem_singleton.mp hgrant'] at hgrant ⊢
      intro hdecided
      exact absurd hdecided ((hokPushed.grant _ hgrant).not_decidedIn rfl)
  rcases request_cases times persisted uuid req requester grants with
    ⟨_, hr⟩ | ⟨_, hr⟩ | ⟨existing, -, -, hr⟩ | ⟨_, hr⟩ | hr
  · rw [hr]
    exact h
  · rw [hr]
    exact hrefreshed
  · rw [hr]
    exact hrefreshed.waitForGrant hokRefreshed times existing.id
  · rw [hr]
    exact hpushed
  · rw [hr]
    exact hpushed.waitForGrant hokPushed times (grantId uuid)

theorem AllIntact.approve (now : Time) (id : Text) (option : AgentGrantApprovalOption) :
    AllIntact (log ++ approvals id option grants (approve now persisted id option grants))
      (approve now persisted id option grants).1 := by
  rcases approve_cases hok.keyed persisted now id option with
    ⟨error, hr⟩ | ⟨grant, hmem, rfl, hpending, ⟨error, hr⟩ | hr⟩
  · rw [hr, approvals_of_unchanged, List.append_nil]
    exact h
  · rw [hr, approvals_of_mem hok.keyed hmem ⟨rfl, rfl⟩ hpending, if_neg (by simp)]
    refine h.onGrant hok.keyed hmem (forall_mem_nil _) ?_
    rw [List.append_nil]
    exact fun hdecided => absurd hdecided ((hok.grant _ hmem).not_decidedIn hpending)
  · rw [hr, approvals_of_mem hok.keyed hmem ⟨rfl, rfl⟩ hpending]
    exact h.onGrant hok.keyed hmem (forall_mem_singleton.mpr rfl) fun _ => .inl rfl

theorem AllIntact.deny (now : Time) (id : Text) (r : Except String AgentGrant) :
    AllIntact (log ++ denials id grants r) (deny now persisted id grants).1 := by
  rw [deny_fst hok.keyed]
  unfold denials
  cases hfind : grants.find? (·.requestId == id) with
  | none =>
    rw [map_onGrant_of_not_mem (hok.keyed.not_mem_of_find?_requestId hfind)]
    exact h.append_nil
  | some grant =>
    obtain ⟨hmem, rfl⟩ := hok.keyed.find?_requestId hfind
    refine h.onGrant hok.keyed hmem (forall_mem_singleton.mpr rfl) ?_
    by_cases hpending : grant.status = .pending
    · refine fun _ => .inr ?_
      simp [AgentGrant.finishPending, hpending]
    · rw [show grant.finishPending now .denied = grant from if_neg hpending]
      refine (h grant hmem).append (forall_mem_singleton.mpr ?_)
      simp [GrantOutcome.decides, hpending]

theorem AllIntact.revoke (id : Text) :
    AllIntact (log ++ revocations id grants) (revoke persisted id grants).1 := by
  have hquiet : ∀ id', ∀ o ∈ revocations id grants, o.decides id' = false := by
    intro id'
    unfold revocations
    split
    · exact forall_mem_singleton.mpr rfl
    · exact forall_mem_nil _
  rw [revoke_fst hok.keyed]
  refine AllIntact.map fun grant hgrant => Intact.append ?_ (hquiet _)
  unfold Agent.onGrant
  split
  · exact (h grant hgrant).revoke
  · exact h grant hgrant

theorem AllIntact.markExecuting (ids : List Text) :
    AllIntact (log ++ reservations ids grants) (markExecuting persisted ids grants).1 := by
  unfold reservations Agent.markExecuting
  cases hr : reserveGrants grants ids with
  | error error => exact h.append_nil
  | ok grants' =>
    obtain ⟨-, hplaces, rfl⟩ := reserveGrants_ok hok.keyed hr
    refine AllIntact.map fun grant hgrant => Intact.append ?_ (forall_mem_map.mpr fun _ _ => rfl)
    split
    · rename_i hid
      obtain ⟨grant', hgrant', hgid, husable, -⟩ := hplaces grant.id hid
      rw [hok.keyed.eq_of_id hgrant' hgrant hgid] at husable
      exact (h grant hgrant).reserve husable
    · exact h grant hgrant

theorem AllIntact.consume (now : Time)
    (params : ConsumeAgentGrantParams) (requester : GrantRequester) :
    AllIntact (log ++ consumptions now params requester grants)
      (consume now persisted params requester grants).1 := by
  have hrefreshed := h.refreshExpired now
  have hokRefreshed := hok.refreshExpired now
  unfold consumptions
  rcases consume_fst hok.keyed persisted now params requester with
    ⟨error, hcheck, hfst⟩ | ⟨grant, hcheck, hfst⟩
  · rw [hcheck, hfst]
    exact hrefreshed.append_nil
  · rw [hcheck, hfst]
    obtain ⟨hmem, hid, hstatus, -⟩ := checkConsume_ok hcheck
    rw [← hid]
    refine hrefreshed.onGrant hokRefreshed.keyed hmem (forall_mem_singleton.mpr rfl) ?_
    exact ((hrefreshed grant hmem).consume hstatus).append (forall_mem_singleton.mpr rfl)

end StoreOk

theorem AllIntact.finish (h : AllIntact log grants) (persisted : Except String Unit)
    (ids : List Text) (completion : Completion) :
    AllIntact log (finish persisted ids completion grants).1 := by
  refine AllIntact.map fun grant hgrant => ?_
  split
  · exact (h grant hgrant).finish completion
  · exact h grant hgrant

/-! ## Steps -/

theorem grantStep_allIntact {s' : GrantState} {e : GrantEvent} (hok : s.Ok)
    (h : AllIntact s.log s.grants) (hdue : NotOverdue s e) (hs : grantStep s e = some s') :
    AllIntact s'.log s'.grants := by
  cases e with
  | list now | authorize now requester capability fingerprint grantIds =>
    cases hs
    exact (h.refreshExpired now).append_nil
  | request thread times persisted uuid req requester =>
    simp only [grantStep] at hs
    split at hs
    · rename_i hfree
      cases hs
      exact h.request hok.store times hfree.2 req requester
    · cases hs
  | wake thread result checked =>
    obtain ⟨waiter, hw, rfl⟩ := map_eq_some_iff.mp hs
    show AllIntact s.log (wake waiter result checked s.grants).1
    rcases (wake_cases hok.store.keyed waiter result checked).1 with
      hsame | ⟨rfl, -, hdeadline, hmap⟩ | ⟨fresh, hmem, -, hpending, hmap⟩
    · rw [hsame]
      exact h
    · rw [hmap]
      exact h.writeBack (hdue thread checked waiter rfl hw hdeadline)
    · rw [hmap]
      exact h.writeBack_fresh hok.store hmem hpending
  | approve now persisted requestId option =>
    cases hs
    exact h.approve hok.store now requestId option
  | deny now persisted requestId =>
    cases hs
    exact h.deny hok.store now requestId _
  | revoke persisted grantId =>
    cases hs
    exact h.revoke hok.store grantId
  | markExecuting persisted grantIds =>
    cases hs
    exact h.markExecuting hok.store grantIds
  | consume now persisted params requester =>
    cases hs
    exact h.consume hok.store now params requester
  | finish persisted grantIds completion =>
    cases hs
    exact (h.finish persisted grantIds completion).append_nil
  | clear =>
    cases hs
    exact fun grant hgrant => by cases hgrant

theorem mem_map_onGrant (hmem : grant ∈ grants) (hid : grant.id ≠ id) :
    grant ∈ grants.map (onGrant id f) := mem_map.mpr ⟨grant, hmem, if_neg hid⟩

section

variable (hok : s.Ok) (hmem : grant ∈ s.grants) (hdecided : s.Decided grant.id)

include hok hmem hdecided

theorem approve_stands (now : Time) (id : Text) (option : AgentGrantApprovalOption) :
    grant ∈ (approve now persisted id option s.grants).1 := by
  rcases approve_cases hok.store.keyed persisted now id option with
    ⟨error, hr⟩ | ⟨found, hfound, rfl, hpending, hr⟩
  · rw [hr]
    exact hmem
  · have hne : grant.id ≠ found.id := by
      intro heq
      rw [heq] at hdecided
      exact (hok.store.grant found hfound).not_decidedIn hpending hdecided
    rcases hr with ⟨error, hr⟩ | hr <;> rw [hr] <;> exact mem_map_onGrant hmem hne

theorem deny_stands (now : Time) (id : Text) : grant ∈ (deny now persisted id s.grants).1 := by
  rw [deny_fst hok.store.keyed]
  refine mem_map.mpr ⟨grant, hmem, ?_⟩
  have hsettled : grant.status ≠ .pending :=
    fun hpending => (hok.store.grant grant hmem).not_decidedIn hpending hdecided
  unfold onGrant
  split
  · exact if_neg hsettled
  · rfl

theorem wake_stands {result : WaitResult} {checked : Nat}
    (hdue : result = .timedOut → waiter.deadline ≤ checked →
      ∀ grant ∈ s.grants, grant.id = waiter.grant.id → ¬ s.Decided grant.id) :
    grant ∈ (wake waiter result checked s.grants).1 := by
  rcases (wake_cases hok.store.keyed waiter result checked).1 with
    hsame | ⟨htimeout, -, hdeadline, hmap⟩ | ⟨fresh, hfresh, -, hpending, hmap⟩
  · rw [hsame]
    exact hmem
  · rw [hmap]
    exact mem_map_onGrant hmem fun hid => hdue htimeout hdeadline grant hmem hid hdecided
  · rw [hmap]
    refine mem_map_onGrant hmem fun hid => ?_
    rw [hid] at hdecided
    exact (hok.store.grant _ hfresh).not_decidedIn hpending hdecided

theorem overdue_overwrites (h : AllIntact s.log s.grants) (hw : WaiterOk waiter)
    {checked : Nat} (hdeadline : waiter.deadline ≤ checked)
    (hid : grant.id = waiter.grant.id) :
    grant ∉ (wake waiter .timedOut checked s.grants).1 := by
  show grant ∉ (waitTurn waiter checked s.grants).1
  rw [waitTurn_overdue hok.store.keyed hw.pending hdeadline]
  intro hin
  obtain ⟨before, hbefore, heq⟩ := mem_map.mp hin
  by_cases hbid : before.id = waiter.grant.id
  · rw [onGrant, if_pos hbid] at heq
    have hcopy : grant.approvedAt = none ∧ grant.status = .expired := by
      rw [← heq]
      exact ⟨hw.undecided, rfl⟩
    rcases h grant hmem hdecided with hsome | hdenied
    · rw [hcopy.1] at hsome
      cases hsome
    · rw [hcopy.2] at hdenied
      cases hdenied
  · rw [onGrant, if_neg hbid] at heq
    exact hbid (heq ▸ hid)

end

theorem decisionStands_iff {e : GrantEvent} (hok : s.Ok)
    (h : AllIntact s.log s.grants) : DecisionStands s e ↔ NotOverdue s e := by
  constructor
  · rintro hstands thread checked waiter rfl hw hdeadline grant hmem hid hdecided
    have hstep : grantStep s (.wake thread .timedOut checked) =
        some (s.reply thread (wake waiter .timedOut checked s.grants)) := by
      simp only [grantStep, hw, map_some]
    exact overdue_overwrites hok hmem hdecided h (hok.waiters thread waiter hw) hdeadline hid
      (hstands rfl _ hstep grant hmem hdecided)
  · intro hdue hkind s' hs grant hmem hdecided
    cases e with
    | wake thread result checked =>
      obtain ⟨waiter, hw, rfl⟩ := map_eq_some_iff.mp hs
      refine wake_stands hok hmem hdecided fun hresult hdeadline => ?_
      subst hresult
      exact hdue thread checked waiter rfl hw hdeadline
    | approve now persisted requestId option =>
      cases hs
      exact approve_stands hok hmem hdecided now requestId option
    | deny now persisted requestId =>
      cases hs
      exact deny_stands hok hmem hdecided now requestId
    | list | request | revoke | authorize | markExecuting | consume | finish | clear => cases hkind

/-- The decisions of the user stand in a run exactly if no wait for a grant that was decided on ends
with a timeout after its deadline. -/
theorem decisions_stand_iff (events : List GrantEvent) :
    Run.Along grantStep DecisionStands .empty events ↔
      Run.Along grantStep NotOverdue .empty events := by
  refine Run.along_iff_along (I := fun s => s.Ok ∧ AllIntact s.log s.grants)
    (fun s e s' hI hstands hs => ?_) (fun s e hI => decisionStands_iff hI.1 hI.2)
    ⟨.empty, fun grant hgrant => by cases hgrant⟩
  exact ⟨grantStep_ok hI.1 hs,
    grantStep_allIntact hI.1 hI.2 ((decisionStands_iff hI.1 hI.2).mp hstands) hs⟩

namespace Sample

def approvedLate : List GrantEvent :=
  [requested, .approve (seconds 28) (.ok ()) grantId₁ .once]

def timedOut : GrantEvent := .wake 0 .timedOut 29000000001

def approvalLost (s : GrantState) : Bool :=
  s.grants.any (fun grant => grant.status == .approved && s.log.any (·.decides grant.id)) &&
    (grantStep s timedOut).any fun s' => s'.grants.all fun grant =>
      grant.status == .expired && grant.remainingUses == 0

end Sample

/-- A wait that ends after its deadline undoes an approval that has succeeded. -/
theorem approval_overwritten :
    ¬ ∀ events, Run.Along grantStep DecisionStands .empty events := by
  intro hall
  have hrun : (Run.exec grantStep .empty Sample.approvedLate).any Sample.approvalLost = true := by
    decide
  obtain ⟨s, hs, hlost⟩ := Run.exists_of_exec_any hrun
  obtain ⟨hbefore, hafter⟩ := Bool.and_eq_true_iff.mp hlost
  obtain ⟨grant, hmem, hgrant⟩ := any_eq_true.mp hbefore
  obtain ⟨happroved, hdecided⟩ := Bool.and_eq_true_iff.mp hgrant
  obtain ⟨s', hstep, hall'⟩ := (any_eq_true _ _).mp hafter
  have hstands := (hall (Sample.approvedLate ++ [Sample.timedOut])).last hs
  have hexpired := all_eq_true.mp hall' grant (hstands rfl s' hstep grant hmem hdecided)
  simp only [Bool.and_eq_true, beq_iff_eq] at hexpired happroved
  rw [happroved] at hexpired
  cases hexpired.1

end AiProxy.Agent
