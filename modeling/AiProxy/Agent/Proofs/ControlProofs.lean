import AiProxy.Agent.ControlStore
import AiProxy.Agent.Proofs.BudgetProofs

/-!
# Requests and the grants they change

A request makes a grant request or a consumption only when that is its operation (`Allowed`).
-/

namespace AiProxy.Agent

open Option List Resumption
open Calls (lift await bindOk bind pure)

variable {P V : Type}
variable {call : ControlCall P} {requester : GrantRequester} {s : ControlState P V} {thread : Nat}
  {t : Thread P V} {k : call.Answer V → Program P V Unit} {env : Environment V}
  {r : GrantState × Option (call.Answer V)}

/-! ## The calls of a program -/

/-- The calls that the handling of a request may make. -/
def Allowed (request : ControlRequest P) : ControlCall P → Prop
  | .request params requester =>
    request.operation = .requestAgentGrant params ∧ requester = request.requester
  | .consume params _ => request.operation = .consumeAgentGrant params
  | _ => True

section Calls

variable {Q : ControlCall P → Prop} {α : Type}

theorem calls_ask (h : Q call) : (Control.ask call : Control P V (call.Answer V)).run.Calls Q :=
  lift (await h)

theorem calls_orFail (code : String) (describe : String → String) (r : Except String α) :
    (Control.orFail code describe r : Control P V α).run.Calls Q := by
  cases r <;> trivial

theorem calls_ofExcept (r : Except ControlError α) :
    (Control.ofExcept r : Control P V α).run.Calls Q := by
  cases r <;> trivial

/-- The checks of a request read the configuration, the audit log and the grants. -/
structure Checks (Q : ControlCall P → Prop) : Prop where
  has : ∀ ids capability, Q (.hasGrantForCapability ids capability)
  authorize : ∀ requester capability fingerprint ids,
    Q (.authorize requester capability fingerprint ids)
  config : Q .readConfig
  audit : Q .checkAudit

theorem Checks.authorizeMissing (h : Checks Q) (config : AgentAccessConfig)
    (requester : GrantRequester) (expected : Text) (ids : List Text)
    (capabilities : List AgentCapability) (authorized : AuthorizedGrants)
    (notRequested : List AgentCapability) :
    (authorizeMissing config requester expected ids capabilities authorized notRequested :
      Control P V _).run.Calls Q := by
  induction capabilities generalizing authorized notRequested with
  | nil => trivial
  | cons capability capabilities ih =>
    rw [Agent.authorizeMissing]
    refine bindOk (calls_ofExcept _) fun _ => ?_
    refine bindOk (calls_ask (h.has ids capability)) fun known => ?_
    split
    · exact ih authorized (notRequested ++ [capability])
    · refine bindOk (calls_ask (h.authorize requester capability expected ids)) fun answer => ?_
      exact bindOk (calls_orFail _ _ answer) fun id => ih _ notRequested

variable (fingerprint : ControlOperation P → Text) (request : ControlRequest P)

theorem Checks.ensureApprovedGrants (h : Checks Q) (config : AgentAccessConfig)
    (extra : List ControlPermission) :
    (ensureApprovedGrants fingerprint config request extra : Control P V _).run.Calls Q := by
  refine bindOk (calls_ofExcept _) fun need => ?_
  cases need with
  | none => trivial
  | some need =>
    exact bindOk (h.authorizeMissing _ _ _ _ _ _ _) fun r => calls_ofExcept _

theorem Checks.checkAudit (h : Checks Q) (operation : ControlOperation P) :
    (checkAudit operation : Control P V Unit).run.Calls Q := by
  unfold Agent.checkAudit
  split
  · exact bindOk (calls_ask h.audit) fun answer => calls_orFail _ _ answer
  · trivial

theorem Checks.preflightRequestWithExtra (h : Checks Q) (token : Text)
    (extra : List ControlPermission) :
    (preflightRequestWithExtra fingerprint token request extra : Control P V _).run.Calls Q := by
  refine bindOk (calls_ofExcept _) fun _ => ?_
  refine bindOk (calls_ask h.config) fun answer => ?_
  refine bindOk (calls_orFail _ _ answer) fun config => ?_
  refine bindOk (calls_ofExcept _) fun _ => ?_
  split
  · exact calls_ofExcept _
  · exact calls_ofExcept _
  · refine bindOk (calls_ofExcept _) fun _ => ?_
    refine bindOk (h.ensureApprovedGrants fingerprint request config extra) fun grants => ?_
    refine bindOk (calls_ofExcept _) fun _ => ?_
    exact bindOk (h.checkAudit _) fun _ => trivial

theorem calls_executeAuthorizedRequest (preflight : Preflight) :
    (executeAuthorizedRequest request preflight : Control P V V).run.Calls (Allowed request) := by
  refine bindOk ?_ fun _ => ?_
  · unfold reserve
    split
    · trivial
    · exact bindOk (calls_ask trivial) fun answer => calls_orFail _ _ answer
  · exact bindOk (calls_ask trivial) fun result => calls_ofExcept result

theorem calls_conditionalPermissions (operation : ControlOperation P) :
    (conditionalPermissions operation : Control P V _).run.Calls (Allowed request) := by
  cases operation with
  | applyAutomationPlan | rollbackAutomationChange => exact calls_ask trivial
  | _ => trivial

theorem checks_allowed : Checks (Allowed request) :=
  ⟨fun _ _ => trivial, fun _ _ _ _ => trivial, trivial, trivial⟩

theorem calls_executeRequest (toData : AgentGrant → V) (token : Text) :
    (executeRequest fingerprint toData token request).run.Calls (Allowed request) := by
  have hpreflight : ∀ extra, (preflightRequestWithExtra fingerprint token request extra :
      Control P V _).run.Calls (Allowed request) := fun extra =>
    (checks_allowed request).preflightRequestWithExtra fingerprint request token extra
  unfold executeRequest
  split
  · rename_i params hoperation
    refine bindOk (hpreflight []) fun _ => ?_
    refine bindOk (calls_ask ⟨hoperation, rfl⟩) fun answer => ?_
    exact bindOk (calls_orFail _ _ answer) fun grant => trivial
  · rename_i params hoperation
    refine bindOk (hpreflight []) fun _ => ?_
    refine bindOk (calls_ask hoperation) fun answer => ?_
    exact bindOk (calls_orFail _ _ answer) fun grant => trivial
  · refine bindOk (calls_conditionalPermissions request _) fun extra => ?_
    split
    · refine bindOk (hpreflight extra) fun _ => ?_
      exact bindOk (hpreflight extra) fun preflight =>
        calls_executeAuthorizedRequest request preflight
    · exact bindOk (hpreflight extra) fun preflight =>
        calls_executeAuthorizedRequest request preflight

theorem calls_appendControlAudit :
    (appendControlAudit request : Program P V Bool).Calls (Allowed request) := by
  unfold appendControlAudit
  by_cases hwrite : request.operation.isWrite = true
  · rw [if_pos hwrite]
    exact await trivial
  · rw [if_neg hwrite]
    trivial

theorem calls_finishGrants (completion : Completion) :
    (finishGrants request completion : Program P V Unit).Calls (Allowed request) := by
  unfold finishGrants
  split
  · trivial
  · refine bind (await ?_) fun _ => pure ()
    trivial

theorem calls_respond (result : Except ControlError V) :
    (respond request result).Calls (Allowed request) := by
  refine bind (calls_appendControlAudit request) fun appended => ?_
  refine bind (await trivial) fun fits => ?_
  exact bind (await trivial) fun written => calls_finishGrants request _

theorem calls_handleConnection (toData : AgentGrant → V) (token : Text)
    :
    (handleConnection fingerprint toData token request).Calls (Allowed request) :=
  bind (calls_executeRequest fingerprint request toData token) fun result =>
    calls_respond request result

end Calls

variable {now : Time}

section Frame

variable {grants : List AgentGrant} {before after : AgentGrant}
variable {persisted : Except String Unit} {ids : List Text}

theorem Keyed.eq_of_mem_map (h : Keyed grants) {f : AgentGrant → AgentGrant}
    (hf : ∀ grant ∈ grants, (f grant).id = grant.id) (hb : before ∈ grants)
    (ha : after ∈ grants.map f) (hid : after.id = before.id) : after = f before := by
  obtain ⟨grant, hgrant, rfl⟩ := mem_map.mp ha
  rw [hf grant hgrant] at hid
  rw [h.eq_of_id hgrant hb hid]

theorem Keyed.eq_refresh (h : Keyed grants) (hb : before ∈ grants)
    (ha : after ∈ Agent.refreshExpired now grants) (hid : after.id = before.id) :
    after = before.refresh now :=
  h.eq_of_mem_map (fun grant _ => (sameKey_refresh now grant).1) hb ha hid

theorem Keyed.eq_writeBack (h : Keyed grants) {waiter : Waiter} (hb : before ∈ grants)
    (ha : after ∈ grants.map (Agent.onGrant waiter.grant.id fun _ => waiter.expired))
    (hid : after.id = before.id) : after = before ∨ before.id = waiter.grant.id := by
  by_cases hw : before.id = waiter.grant.id
  · exact .inr hw
  · refine .inl ((h.eq_of_mem_map (fun grant _ => ?_) hb ha hid).trans (if_neg hw))
    unfold Agent.onGrant
    split
    · rename_i hgrant
      exact hgrant.symm
    · rfl

theorem refresh_key (now : Time) (grant : AgentGrant) :
    grantKeyFromGrant (grant.refresh now) = grantKeyFromGrant grant := by
  rcases refresh_cases now grant with h | ⟨-, -, h⟩
  · rw [h]
  · rw [h]
    rfl

theorem request_frame {issued : List Text} {log : List GrantOutcome} (h : StoreOk issued log grants)
    {times : RequestTimes} {uuid : Text} (hnew : grantId uuid ∉ issued) {req : AgentGrantRequest}
    (hb : before ∈ grants) (ha : after ∈ (request times persisted uuid req requester grants).1)
    (hid : after.id = before.id) :
    after = before ∨ after = before.refresh times.refreshed ∨
      grantKeyFromGrant before = grantKey requester.agentInstanceId requester.clientName
        requester.clientVersion req.capability req.actionFingerprint := by
  have hold : before.id ≠ grantId uuid := fun heq => hnew (heq ▸ h.known before hb)
  have hpushed : ∀ grant ∈ trimGrants (refreshExpired times.refreshed grants) ++
      [newGrant req requester uuid times.now], grant.id = before.id →
        grant = before.refresh times.refreshed := by
    intro grant hgrant hgid
    rcases mem_append.mp hgrant with hgrant | hgrant
    · exact h.keyed.eq_refresh hb ((trimGrants_suffix _).subset hgrant) hgid
    · rw [mem_singleton.mp hgrant] at hgid
      exact absurd hgid.symm hold
  have hrefreshed := h.refreshExpired times.refreshed
  have hok := (hrefreshed.sublist (trimGrants_suffix _).sublist).push req requester hnew times.now
  rcases request_cases times persisted uuid req requester grants with
    ⟨_, hr⟩ | ⟨_, hr⟩ | ⟨existing, hexisting, hkey, hr⟩ | ⟨_, hr⟩ | hr <;> rw [hr] at ha
  · exact .inl (h.keyed.eq_of_id ha hb hid)
  · exact .inr (.inl (h.keyed.eq_refresh hb ha hid))
  · have hmem : before.refresh times.refreshed ∈ refreshExpired times.refreshed grants :=
      mem_map_of_mem hb
    have hrid := (sameKey_refresh times.refreshed before).1
    rcases (waitForGrant_cases hrefreshed.keyed times existing.id).1 with
      hsame | ⟨waiter, hwmem, hwid, -, hmap⟩
    · rw [hsame] at ha
      exact .inr (.inl (h.keyed.eq_refresh hb ha hid))
    · rw [hmap] at ha
      rcases hrefreshed.keyed.eq_writeBack hmem ha (hid.trans hrid.symm) with heq | hown
      · exact .inr (.inl heq)
      · refine .inr (.inr ?_)
        have heq := hrefreshed.keyed.eq_of_id hmem hexisting (hown.trans hwid)
        rw [← hkey, ← heq, refresh_key]
  · exact .inr (.inl (hpushed after ha hid))
  · rcases (waitForGrant_cases hok.keyed times (grantId uuid)).1 with
      hsame | ⟨waiter, hwmem, hwid, -, hmap⟩
    · rw [hsame] at ha
      exact .inr (.inl (hpushed after ha hid))
    · rw [hmap] at ha
      obtain ⟨grant, hgrant, hgafter⟩ := mem_map.mp ha
      by_cases hgid : grant.id = waiter.grant.id
      · rw [onGrant, if_pos hgid] at hgafter
        rw [← hgafter] at hid
        exact absurd (hid.symm.trans hwid) hold
      · rw [onGrant, if_neg hgid] at hgafter
        rw [← hgafter] at hid ⊢
        exact .inr (.inl (hpushed grant hgrant hid))

theorem consume_frame (h : Keyed grants) {params : ConsumeAgentGrantParams}
    (hb : before ∈ grants) (ha : after ∈ (consume now persisted params requester grants).1)
    (hid : after.id = before.id) : after = before.refresh now ∨ params.grantId = before.id := by
  rcases consume_fst h persisted now params requester with ⟨_, -, hfst⟩ | ⟨_, -, hfst⟩ <;>
    rw [hfst] at ha
  · exact .inl (h.eq_refresh hb ha hid)
  · have hmem : before.refresh now ∈ refreshExpired now grants := mem_map_of_mem hb
    have hrid := (sameKey_refresh now before).1
    have heq := (h.refreshExpired now).eq_of_mem_map (fun grant _ => ?_) hmem ha
      (hid.trans hrid.symm)
    · by_cases hown : before.id = params.grantId
      · exact .inr hown.symm
      · refine .inl (heq.trans (if_neg ?_))
        rw [hrid]
        exact hown
    · unfold onGrant
      split
      · exact (sameKey_consume grant).1
      · rfl

theorem markExecuting_frame (h : Keyed grants) (hb : before ∈ grants)
    (ha : after ∈ (markExecuting persisted ids grants).1) (hid : after.id = before.id) :
    after = before ∨ before.id ∈ ids ∧ ∃ grants', reserveGrants grants ids = .ok grants' := by
  unfold markExecuting at ha
  cases hr : reserveGrants grants ids with
  | error _ =>
    rw [hr] at ha
    exact .inl (h.eq_of_id ha hb hid)
  | ok grants' =>
    rw [hr] at ha
    obtain ⟨-, -, rfl⟩ := reserveGrants_ok h hr
    have heq := h.eq_of_mem_map (fun grant _ => by split <;> rfl) hb ha hid
    by_cases hown : before.id ∈ ids
    · exact .inr ⟨hown, _, rfl⟩
    · rw [if_neg hown] at heq
      exact .inl heq

theorem eq_finish (h : Keyed grants) {completion : Completion} (hb : before ∈ grants)
    (ha : after ∈ (finish persisted ids completion grants).1) (hid : after.id = before.id) :
    after = if before.id ∈ ids then before.finish completion else before := by
  have heq := h.eq_of_mem_map (fun grant _ => ?_) hb ha hid
  · simpa using heq
  · split
    · exact (sameKey_finish completion grant).1
    · rfl

theorem completed_ne_executing (completion : Completion) (remaining : Nat) :
    completedGrantStatus completion.status remaining ≠ .executing := by
  cases completion with
  | succeeded | failed =>
    show (if 0 < remaining then AgentGrantStatus.approved else .expired) ≠ .executing
    split <;> exact fun h => by cases h
  | unknown => exact fun h => by cases h

theorem changed_finish_iff {completion : Completion} :
    Changed before (if before.id ∈ ids then before.finish completion else before) ↔
      before.id ∈ ids ∧ before.status = .executing := by
  by_cases hids : before.id ∈ ids
  · rw [if_pos hids]
    by_cases hexecuting : before.status = .executing
    · refine iff_of_true (.inl ?_) ⟨hids, hexecuting⟩
      rw [AgentGrant.finish, hexecuting]
      exact completed_ne_executing completion before.remainingUses
    · rw [AgentGrant.finish, if_neg hexecuting]
      exact iff_of_false (fun hc => hc.elim (· rfl) (· rfl)) fun hboth => hexecuting hboth.2
  · rw [if_neg hids]
    exact iff_of_false (fun hc => hc.elim (· rfl) (· rfl)) fun hboth => hids hboth.1

end Frame

/-! ## Steps -/

/-- The store is in order, and every thread makes only calls that its request allows. -/
structure ControlState.Ok (s : ControlState P V) : Prop where
  store : s.store.Ok
  threads : ∀ thread t, s.threads thread = some t → t.program.Calls (Allowed t.request)

theorem ControlState.Ok.start : (ControlState.start : ControlState P V).Ok :=
  ⟨.empty, fun thread t ht => by cases ht⟩

theorem ControlState.Ok.set (h : s.Ok) {store : GrantState} (hstore : store.Ok)
    (ht : t.program.Calls (Allowed t.request)) :
    (s.set store thread t).Ok := by
  refine ⟨hstore, fun thread' t' ht' => ?_⟩
  by_cases heq : thread' = thread
  · subst heq
    have hsome : some t = some t' := by simpa [ControlState.set] using ht'
    cases hsome
    exact ht
  · refine h.threads thread' t' ?_
    simpa [ControlState.set, Function.update_of_ne heq] using ht'

theorem Thread.calls_resume {s : GrantState}
    (h : (Resumption.call call k).Calls (Allowed t.request)) (answer : Option (call.Answer V)) :
    (t.resume s call k answer).program.Calls (Allowed t.request) := by
  cases answer with
  | some r => exact h.2 r
  | none => exact h

theorem perform_store {s : GrantState} (h : perform thread env s call = some r) :
    r.1 = s ∨ ∃ e, grantStep s e = some r.1 := by
  cases call with
  | authorize requester capability fingerprint ids =>
    cases h
    exact .inr ⟨.authorize env.now requester capability fingerprint ids, rfl⟩
  | request params requester =>
    obtain ⟨s', hs', rfl⟩ := map_eq_some_iff.mp h
    exact .inr ⟨_, hs'⟩
  | consume params requester =>
    cases h
    exact .inr ⟨.consume env.now env.persisted params requester, rfl⟩
  | markExecuting ids =>
    cases h
    exact .inr ⟨.markExecuting env.persisted ids, rfl⟩
  | finish ids completion =>
    cases h
    exact .inr ⟨.finish env.persisted ids completion, rfl⟩
  | _ =>
    cases h
    exact .inl rfl

section Step

variable {fingerprint : ControlOperation P → Text} {toData : AgentGrant → V} {token : Text}
variable {s' : ControlState P V}

theorem turn_cases (h : controlStep fingerprint toData token s (.turn thread env) = some s') :
    ∃ t call k r, s.threads thread = some t ∧ t.program = .call call k ∧
      perform thread env s.store call = some r ∧
      s' = s.set r.1 thread (t.resume s.store call k r.2) := by
  obtain ⟨t, ht, hturn⟩ := bind_eq_some_iff.mp h
  unfold ControlState.turn at hturn
  cases hp : t.program with
  | done _ =>
    rw [hp] at hturn
    cases hturn
  | call call k =>
    rw [hp] at hturn
    obtain ⟨r, hr, rfl⟩ := map_eq_some_iff.mp hturn
    exact ⟨t, call, k, r, ht, hp, hr, rfl⟩

theorem wakeStep_cases {checked : Nat} {result : WaitResult}
    (h : controlStep fingerprint toData token s (.wake thread result checked) = some s') :
    ∃ t waiter params requester k, s.threads thread = some t ∧
      s.store.waiters thread = some waiter ∧
      t.program = .call (.request params requester) k ∧
      s' = s.set (s.store.reply thread (wake waiter result checked s.store.grants)) thread
        (t.resume s.store (.request params requester) k
          (wake waiter result checked s.store.grants).2.answer?) := by
  obtain ⟨t, ht, hrest⟩ := bind_eq_some_iff.mp h
  obtain ⟨waiter, hw, hwake⟩ := bind_eq_some_iff.mp hrest
  unfold ControlState.wake at hwake
  split at hwake
  · rename_i params requester k hp
    obtain ⟨store, hstore, rfl⟩ := map_eq_some_iff.mp hwake
    have heq : s.store.reply thread (wake waiter result checked s.store.grants) = store := by
      simpa [grantStep, hw] using hstore
    exact ⟨t, waiter, params, requester, k, ht, hw, hp, by rw [heq]⟩
  · cases hwake

theorem controlStep_ok {e : ControlEvent P V} (h : s.Ok)
    (hs : controlStep fingerprint toData token s e = some s') : s'.Ok := by
  cases e with
  | connect thread request =>
    simp only [controlStep] at hs
    split at hs
    · cases hs
      exact h.set h.store (calls_handleConnection fingerprint request toData token)
    · cases hs
  | turn thread env =>
    obtain ⟨t, call, k, r, ht, hp, hr, rfl⟩ := turn_cases hs
    have hstore : r.1.Ok := by
      rcases perform_store hr with hsame | ⟨e, he⟩
      · rw [hsame]
        exact h.store
      · exact grantStep_ok h.store he
    have hcalls := h.threads thread t ht
    rw [hp] at hcalls
    exact h.set hstore (Thread.calls_resume hcalls r.2)
  | wake thread result checked =>
    obtain ⟨t, waiter, params, requester, k, ht, hw, hp, rfl⟩ := wakeStep_cases hs
    have hwaiter := h.store.waiters thread waiter hw
    obtain ⟨hstore, hwaits⟩ := h.store.store.wake hwaiter result checked
    have hcalls := h.threads thread t ht
    rw [hp] at hcalls
    exact h.set (h.store.reply hstore hwaits) (Thread.calls_resume hcalls _)
  | user event =>
    simp only [controlStep] at hs
    split at hs
    · obtain ⟨store, hstore, rfl⟩ := map_eq_some_iff.mp hs
      exact ⟨grantStep_ok h.store hstore, h.threads⟩
    · cases hs

theorem not_changed_self (grant : AgentGrant) : ¬ Changed grant grant :=
  fun h => h.elim (· rfl) (· rfl)

theorem expiredBy_of_refresh {before : AgentGrant} (hp : t.program = .call call k)
    (hnow : call.refreshesAt env = some now) (hchanged : Changed before (before.refresh now)) :
    ExpiredBy t before (before.refresh now) (.turn thread env) := by
  rcases refresh_cases now before with hsame | ⟨hlive, hdue, hexpired⟩
  · rw [hsame] at hchanged
    exact absurd hchanged (not_changed_self before)
  · refine ⟨call, k, now, hp, hnow, hlive, hdue, ?_⟩
    rw [hexpired]
    exact ⟨rfl, rfl⟩

theorem turn_frame (h : s.Ok) (hp : t.program = .call call k) (hallowed : Allowed t.request call)
    (hr : perform thread env s.store call = some r)
    (hnotFinish : ∀ ids completion, call ≠ .finish ids completion) {before after : AgentGrant}
    (hb : before ∈ s.store.grants) (ha : after ∈ r.1.grants) (hid : after.id = before.id)
    (hchanged : Changed before after) :
    ExpiredBy t before after (.turn thread env) ∨ s.AsksFor thread t.request before ∨
      Consumes t.request before ∨ before.id ∈ (t.resume s.store call k r.2).reserved := by
  have hkeyed := h.store.store.keyed
  have hsame : after ≠ before := fun heq => not_changed_self before (heq ▸ hchanged)
  cases call with
  | authorize requester capability fingerprint ids =>
    cases hr
    have heq := hkeyed.eq_refresh hb ha hid
    rw [heq] at hchanged ⊢
    exact .inl (expiredBy_of_refresh hp rfl hchanged)
  | request params requester =>
    obtain ⟨s', hs', rfl⟩ := map_eq_some_iff.mp hr
    obtain ⟨hoperation, rfl⟩ := hallowed
    simp only [grantStep] at hs'
    split at hs'
    · rename_i hfree
      cases hs'
      rcases request_frame h.store.store hfree.2 hb ha hid with heq | heq | hkey
      · exact absurd heq hsame
      · rw [heq] at hchanged ⊢
        exact .inl (expiredBy_of_refresh hp rfl hchanged)
      · exact .inr (.inl ⟨params, hoperation, .inl hkey⟩)
    · cases hs'
  | consume params requester =>
    cases hr
    rcases consume_frame hkeyed hb ha hid with heq | hown
    · rw [heq] at hchanged ⊢
      exact .inl (expiredBy_of_refresh hp rfl hchanged)
    · exact .inr (.inr (.inl ⟨params, hallowed, hown⟩))
  | markExecuting ids =>
    cases hr
    rcases markExecuting_frame hkeyed hb ha hid with heq | ⟨hown, grants', hreserved⟩
    · exact absurd heq hsame
    · refine .inr (.inr (.inr (mem_append_right t.reserved ?_)))
      simp only [reservedBy, hreserved]
      exact hown
  | finish ids completion => exact absurd rfl (hnotFinish ids completion)
  | _ =>
    cases hr
    exact absurd (hkeyed.eq_of_id ha hb hid) hsame

theorem wake_frame (h : s.Ok) {checked : Nat} {waiter : Waiter} {result : WaitResult}
    {params : AgentGrantRequest} {k : Except String AgentGrant → Program P V Unit}
    (ht : s.threads thread = some t) (hw : s.store.waiters thread = some waiter)
    (hp : t.program = .call (.request params requester) k) {before after : AgentGrant}
    (hb : before ∈ s.store.grants) (ha : after ∈ (wake waiter result checked s.store.grants).1)
    (hid : after.id = before.id) (hchanged : Changed before after) :
    s.AsksFor thread t.request before := by
  have hkeyed := h.store.store.keyed
  have hsame : after ≠ before := fun heq => not_changed_self before (heq ▸ hchanged)
  have hallowed := h.threads thread t ht
  rw [hp] at hallowed
  refine ⟨params, hallowed.1.1, .inr ⟨waiter, hw, ?_⟩⟩
  rcases (wake_cases hkeyed waiter result checked).1 with
    hlist | ⟨-, -, -, hmap⟩ | ⟨fresh, -, hfresh, -, hmap⟩
  · rw [hlist] at ha
    exact absurd (hkeyed.eq_of_id ha hb hid) hsame
  · rw [hmap] at ha
    rcases hkeyed.eq_writeBack hb ha hid with heq | hown
    · exact absurd heq hsame
    · exact hown.symm
  · rw [hmap] at ha
    rcases hkeyed.eq_writeBack hb ha hid with heq | hown
    · exact absurd heq hsame
    · exact (hown.trans hfresh).symm

theorem ControlState.set_threads (s : ControlState P V) (store : GrantState) (thread : Nat)
    (t : Thread P V) : (s.set store thread t).threads thread = some t := by
  simp [ControlState.set]

theorem ownGrantsOnly_iff {e : ControlEvent P V} (h : s.Ok) :
    OwnGrantsOnly fingerprint toData token s e ↔ FinishesOwn s e := by
  have hkeyed := h.store.store.keyed
  constructor
  · rintro hown thread env t ids completion k rfl ht hp grant hgrant hids hexecuting
    have hr : perform thread env s.store (ControlCall.finish ids completion : ControlCall P) =
        some (s.store.after (finish env.persisted ids completion s.store.grants).1 [],
          some env.persisted) := rfl
    have hstep : controlStep fingerprint toData token s (.turn thread env) =
        some (s.set (s.store.after (finish env.persisted ids completion s.store.grants).1 [])
          thread (t.resume s.store (.finish ids completion) k (some env.persisted))) := by
      simp only [controlStep, ht, bind_some, ControlState.turn, hp, hr, map_some]
    have hmem : (if grant.id ∈ ids then grant.finish completion else grant) ∈
        (finish env.persisted ids completion s.store.grants).1 := by
      refine mem_map.mpr ⟨grant, hgrant, ?_⟩
      simp
    have hid : (if grant.id ∈ ids then grant.finish completion else grant).id = grant.id := by
      rw [if_pos hids]
      exact (sameKey_finish completion grant).1
    rcases hown thread t _ _ rfl ht hstep (s.set_threads _ thread _) grant hgrant _ hmem hid
      (changed_finish_iff.mpr ⟨hids, hexecuting⟩) with hexpired | hasks | hconsumes | hreserved
    · obtain ⟨call, k', now, hp', hnow, -⟩ := hexpired
      rw [hp] at hp'
      cases hp'
      cases hnow
    · exact .inl hasks
    · exact .inr (.inl hconsumes)
    · refine .inr (.inr ?_)
      rcases mem_append.mp hreserved with hmem' | hnone
      · exact hmem'
      · cases hnone
  · intro hfinish thread t s' t' hthread ht hs ht' before hb after ha hid hchanged
    cases e with
    | connect thread' request =>
      cases hthread
      simp only [controlStep, ht] at hs
      cases hs
    | turn thread' env =>
      cases hthread
      obtain ⟨t₀, call, k, r, ht₀, hp, hr, rfl⟩ := turn_cases hs
      rw [ht] at ht₀
      cases ht₀
      rw [s.set_threads] at ht'
      cases ht'
      by_cases hcall : ∃ ids completion, call = .finish ids completion
      · obtain ⟨ids, completion, rfl⟩ := hcall
        cases hr
        have hafter : after ∈ (finish env.persisted ids completion s.store.grants).1 := ha
        rw [eq_finish hkeyed hb hafter hid] at hchanged
        obtain ⟨hids, hexecuting⟩ := changed_finish_iff.mp hchanged
        rcases hfinish thread env t ids completion k rfl ht hp before hb hids hexecuting with
          hasks | hconsumes | hreserved
        · exact .inr (.inl hasks)
        · exact .inr (.inr (.inl hconsumes))
        · exact .inr (.inr (.inr (mem_append_left _ hreserved)))
      · have hallowed := h.threads thread t ht
        rw [hp] at hallowed
        exact turn_frame h hp hallowed.1 hr (fun ids completion heq => hcall ⟨ids, completion, heq⟩)
          hb ha hid hchanged
    | wake thread' result checked =>
      cases hthread
      obtain ⟨t₀, waiter, params, requester, k, ht₀, hw, hp, rfl⟩ := wakeStep_cases hs
      rw [ht] at ht₀
      cases ht₀
      exact .inr (.inl (wake_frame h ht hw hp hb ha hid hchanged))
    | user event => cases hthread

/-- In a run, requests change only their own grants exactly if no request completes an executing grant
that it has not reserved, does not ask for and does not consume. -/
theorem requests_own_grants_iff (events : List (ControlEvent P V)) :
    Run.Along (controlStep fingerprint toData token) (OwnGrantsOnly fingerprint toData token) .start
        events ↔
      Run.Along (controlStep fingerprint toData token) FinishesOwn .start events :=
  Run.along_iff_along (fun _ _ _ hok _ hs => controlStep_ok hok hs)
    (fun _ _ hok => ownGrantsOnly_iff hok) .start

end Step

namespace Sample

def sampleFingerprint : ControlOperation Unit → Text := fun _ => "f"

def askConfig : AgentAccessConfig := ⟨true, fun _ => false, fun _ => some .ask⟩

def environment (now : Time) : Environment Unit where
  now := now
  times := ⟨0, 0, 1, 1, 2⟩
  uuid := "1"
  persisted := .ok ()
  config := .ok askConfig
  auditWritable := .ok ()
  userAutomation := false
  dispatched := .ok ()
  appended := true
  fits := true
  written := true

def controlRequest (token : Text) (grantIds : List Text) (operation : ControlOperation Unit) :
    ControlRequest Unit where
  protocolVersion := 2
  requestId := "r"
  token := token
  agentInstanceId := some "m"
  grantIds := grantIds
  actionFingerprint := some "f"
  operation := operation

def clearGrant : ControlOperation Unit :=
  .requestAgentGrant
    { grantRequest with capability := .deleteSessions, actionFingerprint := "f" }

/-- A grant is asked for and approved, and a request that needs it has reserved it; meanwhile a request
with a wrong token names the same grant. -/
def strayRequest : List (ControlEvent Unit Unit) :=
  [.connect 0 (controlRequest "t" [] clearGrant), .turn 0 (environment 0),
    .turn 0 (environment 0), .user (.approve (seconds 5) (.ok ()) grantId₁ .once),
    .wake 0 .notified 3, .connect 1 (controlRequest "t" [grantId₁] .clearSessions)] ++
  List.replicate 9 (.turn 1 (environment (seconds 6))) ++
  [.connect 2 (controlRequest "x" [grantId₁] .getStatus), .turn 2 (environment (seconds 7)),
    .turn 2 (environment (seconds 7))]

def strayStep : ControlState Unit Unit → ControlEvent Unit Unit → Option (ControlState Unit Unit) :=
  controlStep sampleFingerprint (fun _ => ()) "t"

def strayFinish : ControlEvent Unit Unit := .turn 2 (environment (seconds 7))

def reservedNothing (t : Thread Unit Unit) : Bool :=
  t.reserved.isEmpty &&
    (match t.request.operation with
      | .getStatus => true
      | _ => false) &&
    (match t.program with
      | .call (.finish _ _) _ => true
      | _ => false)

/-- The grant that another request executes under has expired after the stray request. -/
def executionLost (s : ControlState Unit Unit) : Bool :=
  (s.threads 2).any reservedNothing &&
    (strayStep s strayFinish).any fun s' => s.store.grants.any fun before =>
      before.status == .executing &&
        s'.store.grants.any fun after => after.id == before.id && after.status == .expired

end Sample

theorem reservedNothing_iff {t : Thread Unit Unit} (h : Sample.reservedNothing t = true) :
    t.reserved = [] ∧ t.request.operation = .getStatus ∧
      ∃ ids completion k, t.program = .call (.finish ids completion) k := by
  unfold Sample.reservedNothing at h
  simp only [Bool.and_eq_true, List.isEmpty_iff] at h
  obtain ⟨⟨hreserved, hoperation⟩, hprogram⟩ := h
  refine ⟨hreserved, ?_, ?_⟩
  · split at hoperation
    · assumption
    · cases hoperation
  · split at hprogram
    · rename_i ids completion k hp
      exact ⟨ids, completion, k, hp⟩
    · cases hprogram

/-- A request with a wrong token completes a grant that another request is executing under. -/
theorem rejected_request_completes_foreign_grant :
    ¬ ∀ events, Run.Along Sample.strayStep
      (OwnGrantsOnly Sample.sampleFingerprint (fun _ => ()) "t") .start events := by
  intro hall
  have hrun : (Run.exec Sample.strayStep .start Sample.strayRequest).any Sample.executionLost =
      true := by decide
  obtain ⟨s, hs, hlost⟩ := Run.exists_of_exec_any hrun
  have hown := (hall (Sample.strayRequest ++ [Sample.strayFinish])).last hs
  obtain ⟨hthread, hafter⟩ := Bool.and_eq_true_iff.mp hlost
  obtain ⟨t, ht, hnothing⟩ := (any_eq_true _ _).mp hthread
  obtain ⟨s', hs', hgrants⟩ := (any_eq_true _ _).mp hafter
  obtain ⟨before, hb, hrest⟩ := any_eq_true.mp hgrants
  obtain ⟨hexecuting, hany⟩ := Bool.and_eq_true_iff.mp hrest
  obtain ⟨after, ha, hboth⟩ := any_eq_true.mp hany
  simp only [Bool.and_eq_true, beq_iff_eq] at hboth hexecuting
  obtain ⟨hreserved, hoperation, ids, completion, k, hp⟩ := reservedNothing_iff hnothing
  have hchanged : Changed before after := by
    refine .inl ?_
    rw [hboth.2, hexecuting]
    exact fun h => by cases h
  obtain ⟨t₀, call, k₀, r, ht₀, hp₀, hr, rfl⟩ := turn_cases hs'
  rw [ht] at ht₀
  cases ht₀
  rw [hp] at hp₀
  cases hp₀
  rcases hown 2 t _ _ rfl ht hs' (s.set_threads _ 2 _) before hb after ha hboth.1 hchanged with
    hexpired | hasks | hconsumes | hmem
  · obtain ⟨call, k', now, hp', hnow, -⟩ := hexpired
    rw [hp] at hp'
    cases hp'
    cases hnow
  · obtain ⟨params, hparams, -⟩ := hasks
    rw [hoperation] at hparams
    cases hparams
  · obtain ⟨params, hparams, -⟩ := hconsumes
    rw [hoperation] at hparams
    cases hparams
  · have hnone : before.id ∈ t.reserved ++ [] := hmem
    rw [hreserved] at hnone
    cases hnone

end AiProxy.Agent
