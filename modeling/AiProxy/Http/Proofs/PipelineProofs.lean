import AiProxy.Http.Pipeline

/-!
# Proofs: session accounting

Wherever the pipeline can be dropped, either no pending session has been sent, or it has been sent and
the guard is armed with a terminal one, or both have been sent and the guard is disarmed.
-/

namespace AiProxy.Http

open List
open AiProxy.Task (State Ending Holds Runs)

variable {Url : Type}
variable {d : ProxySessionDetail} {id : String} {n g : Nat} {headers : List (String × String)}
  {response : UpstreamResponse} {outcome : RequestRuntimeOutcome Url}

/-- No pending session has been sent, and the guard is not armed. -/
def Quiet (st : State ProxySessionDetail) : Prop :=
  st.armed = none ∧ ∀ d ∈ st.log, d.pending = false

/-- The sessions of a request once its pending session has been sent: `terminal` are the terminal
sessions sent so far, `guard` is what the armed guard will send. -/
structure Accounts (id : String) (terminal guard : Nat) (st : State ProxySessionDetail) : Prop where
  pending : ∃ p ts, st.log = p :: ts ∧ p.pending = true ∧ p.id = id ∧ ts.length = terminal ∧
    ∀ t ∈ ts, t.pending = false ∧ t.id = id
  armed : st.armed.toList.length = guard ∧ ∀ g ∈ st.armed, g.pending = false ∧ g.id = id

def SafeToDrop (ending : Ending (Call Url) SendSite Unit) (st : State ProxySessionDetail) : Prop :=
  match ending with
  | .droppedAtSend .upstreamError => ∃ id, Accounts id 0 0 st
  | _ => Quiet st ∨ ∃ id terminal guard, Accounts id terminal guard st ∧ terminal + guard = 1

def terminals (id : String) (log : List ProxySessionDetail) : Nat :=
  log.countP fun d => d.id = id ∧ d.pending = false

theorem quiet_fresh : Quiet (.fresh : State ProxySessionDetail) := ⟨rfl, forall_mem_nil _⟩

variable {st : State ProxySessionDetail}

theorem Quiet.push (h : Quiet st) (hd : d.pending = false) : Quiet ⟨st.log ++ [d], st.armed⟩ :=
  ⟨h.1, forall_mem_append.mpr ⟨h.2, forall_mem_singleton.mpr hd⟩⟩

section

variable {st : State ProxySessionDetail} (h : Accounts id n g st)

include h

theorem Accounts.push (hd : d.pending = false) (hid : d.id = id) :
    Accounts id (n + 1) g ⟨st.log ++ [d], st.armed⟩ := by
  obtain ⟨⟨p, ts, hlog, hp, hpid, hlen, hts⟩, harmed⟩ := h
  refine ⟨⟨p, ts ++ [d], ?_, hp, hpid, ?_, ?_⟩, harmed⟩
  · simp [hlog]
  · simp [hlen]
  · exact forall_mem_append.mpr ⟨hts, forall_mem_singleton.mpr ⟨hd, hid⟩⟩

theorem Accounts.disarm : Accounts id n 0 ⟨st.log, none⟩ := ⟨h.pending, rfl, fun _ h => nomatch h⟩

theorem Accounts.terminals_drop : terminals id st.drop = n + g := by
  obtain ⟨⟨p, ts, hlog, hp, hpid, hlen, hts⟩, hg, harmed⟩ := h
  have hcount : ∀ l : List ProxySessionDetail, (∀ t ∈ l, t.pending = false ∧ t.id = id) →
      terminals id l = l.length := by
    intro l hl
    refine countP_eq_length.mpr fun t ht => ?_
    simp [hl t ht]
  have h1 := hcount ts hts
  have h2 := hcount st.armed.toList fun t ht => harmed t (Option.mem_toList.mp ht)
  unfold terminals at h1 h2
  rw [terminals, State.drop, countP_append, h2, hlog, countP_cons, h1, hlen, hg]
  simp [hp]

theorem Accounts.id_of_pending (hd : d ∈ st.drop) (hp : d.pending = true) : d.id = id := by
  obtain ⟨⟨p, ts, hlog, -, hpid, -, hts⟩, -, harmed⟩ := h
  rw [State.drop, hlog] at hd
  rcases mem_append.mp hd with hd | hd
  · rcases mem_cons.mp hd with rfl | hd
    · exact hpid
    · rw [(hts d hd).1] at hp
      cases hp
  · rw [(harmed d (Option.mem_toList.mp hd)).1] at hp
    cases hp

end

/-- The pipeline may be dropped here, except in the send after an upstream error. -/
def AtRest (Url : Type) (st : State ProxySessionDetail) : Prop :=
  ∀ ending : Ending (Call Url) SendSite Unit,
    ending ≠ .droppedAtSend .upstreamError → SafeToDrop ending st

theorem Quiet.atRest (h : Quiet st) : AtRest Url st := by
  intro ending he
  unfold SafeToDrop
  split
  · exact absurd rfl he
  · exact .inl h

theorem Accounts.atRest (h : Accounts id n g st) (hn : n + g = 1) : AtRest Url st := by
  intro ending he
  unfold SafeToDrop
  split
  · exact absurd rfl he
  · exact .inr ⟨id, n, g, h, hn⟩

section Rules

variable {α β : Type} {st : State ProxySessionDetail} {Q : β → State ProxySessionDetail → Prop}
variable {f : Except String Unit → Pipe Url β}

theorem AtRest.await (h : AtRest Url st) {op : Call Url} {f : op.Answer → Pipe Url β}
    (hf : ∀ r, Holds SafeToDrop (f r) Q st) :
    Holds SafeToDrop (Task.await op >>= f) Q st := ⟨h _ (by simp), hf⟩

theorem AtRest.send (h : AtRest Url st) {site : SendSite} {f : Unit → Pipe Url β}
    (hs : site ≠ .upstreamError) (hf : Holds SafeToDrop (f ()) Q ⟨st.log ++ [d], st.armed⟩) :
    Holds SafeToDrop (Task.post site d >>= f) Q st := ⟨h _ (by simpa using hs), hf⟩

theorem AtRest.requestThrottle (h : AtRest Url st) {selection : Option ThrottleSelection}
    (hf : ∀ r, Holds SafeToDrop (f r) Q st) :
    Holds SafeToDrop (requestThrottle selection >>= f) Q st := by
  unfold Http.requestThrottle
  split
  · exact hf _
  · exact ⟨h _ (by simp), hf⟩

theorem AtRest.responseThrottle (h : AtRest Url st) {selection : Option ThrottleSelection}
    (hf : ∀ r, Holds SafeToDrop (f r) Q st) :
    Holds SafeToDrop (responseThrottle selection >>= f) Q st := by
  unfold Http.responseThrottle
  split
  · exact hf _
  · exact ⟨h _ (by simp), hf⟩

end Rules

variable {env : Env Url} {request : ParsedProxyRequest Url} {st : State ProxySessionDetail}
  {selection : Option ThrottleSelection}

theorem buildThrottleFailureResponse_holds {Q : ProxyResponse → State ProxySessionDetail → Prop}
    {error : String} (h : AtRest Url st)
    (hp : ∀ d r, d.pending = false → d.id = request.requestId → Q r ⟨st.log ++ [d], st.armed⟩) :
    Holds SafeToDrop (buildThrottleFailureResponse env request error) Q st :=
  h.send (by decide) (hp _ _ rfl rfl)

theorem stageParseRequest_holds (h : Quiet st) :
    Holds SafeToDrop (stageParseRequest env) (fun _ st' => st' = st) st := by
  refine h.atRest.await fun r => ?_
  cases r <;> rfl

theorem rejectStage1Request_holds (h : Quiet st) (status : StatusCode) (message : String) :
    Holds SafeToDrop (rejectStage1Request env request status message) (fun _ => Quiet) st :=
  h.atRest.send (by decide) (h.push rfl)

theorem stageApplyRequestRules_holds (h : Quiet st) :
    Holds SafeToDrop (stageApplyRequestRules env request) (fun _ st' => st' = st) st := by
  unfold stageApplyRequestRules
  split
  · rfl
  · split
    · rfl
    · exact h.atRest.await fun _ => rfl

theorem answerMock_holds (h : Quiet st) (mock : MockResponse) :
    Holds SafeToDrop (answerMock env request selection mock)
      (fun r st' => Quiet st' ∧ ∀ e, r ≠ .ok (.forward e)) st := by
  refine h.atRest.requestThrottle fun r => ?_
  cases r with
  | error failure =>
    refine Holds.bind (buildThrottleFailureResponse_holds (Q := fun _ => Quiet) h.atRest
      fun d _ hd _ => h.push hd) fun _ _ hq => ⟨hq, by simp⟩
  | ok u =>
    dsimp only
    split
    · exact ⟨h, by simp⟩
    · refine h.atRest.await fun response => h.atRest.responseThrottle fun r => ?_
      cases r with
      | error failure => exact h.atRest.send (by decide) ⟨h.push rfl, by simp⟩
      | ok u =>
        refine h.atRest.send (by decide) ⟨h.push rfl, ?_⟩
        unfold buildHyperResponseFromUpstream
        split <;> simp [Except.map]

theorem stageInterceptRequestBreakpoint_holds (h : Quiet st) :
    Holds SafeToDrop (stageInterceptRequestBreakpoint env request selection)
      (fun r st' => Quiet st' ∧ ∀ e, r = .ok (.forward e) → st' = st) st := by
  refine h.atRest.await fun r => ?_
  rcases r with e | ⟨requestMut, _ | resolution⟩
  · exact ⟨h, fun _ _ => rfl⟩
  · exact ⟨h, fun _ _ => rfl⟩
  · dsimp only
    cases resolution.action with
    | drop =>
      refine h.atRest.send (by decide) ⟨h.push rfl, ?_⟩
      intro e he
      cases hm : handleDropAction env.mode <;> simp [hm, Except.map] at he
    | mock =>
      cases resolution.mock with
      | none => exact ⟨h, fun _ _ => rfl⟩
      | some mock =>
        exact (answerMock_holds h mock).mono fun r st' hr => ⟨hr.1, fun e he => absurd he (hr.2 e)⟩
    | forward => exact ⟨h, fun _ _ => rfl⟩

/-! ### After the pending session -/

abbrev Covered (request : ParsedProxyRequest Url) : State ProxySessionDetail → Prop :=
  Accounts request.requestId 0 1

/-- The pending and a terminal session have been sent, and the guard is disarmed. -/
abbrev Settled (request : ParsedProxyRequest Url) : State ProxySessionDetail → Prop :=
  Accounts request.requestId 1 0

/-- The pending and a terminal session have been sent, and the guard is still armed. -/
abbrev Answered (request : ParsedProxyRequest Url) : State ProxySessionDetail → Prop :=
  Accounts request.requestId 1 1

theorem covered_of_fresh (failure : SessionFailure) :
    Covered request ⟨[buildPendingSessionDetail request],
      some (cancellationDetail env.lossy request failure)⟩ := by
  refine ⟨⟨buildPendingSessionDetail request, [], rfl, rfl, rfl, rfl, ?_⟩, rfl, ?_⟩
  · exact forall_mem_nil _
  · intro g hg
    cases hg
    exact ⟨rfl, rfl⟩

theorem stageSendPendingAndThrottle_holds :
    Holds SafeToDrop (stageSendPendingAndThrottle env request selection)
      (fun r st' => match r with
        | .proceed => Covered request st'
        | .throttleFailed _ => Answered request st') .fresh := by
  refine quiet_fresh.atRest.send (by decide) ?_
  have hc : Covered request ⟨[buildPendingSessionDetail request],
      some (cancellationDetail env.lossy request clientClosed)⟩ := covered_of_fresh clientClosed
  refine (hc.atRest rfl).requestThrottle fun r => ?_
  cases r with
  | ok u => exact hc
  | error failure =>
    exact Holds.bind (buildThrottleFailureResponse_holds (Q := fun _ => Answered request)
      (hc.atRest rfl) fun d _ hd hid => hc.push hd hid) fun _ _ ha => ha

section

variable (h : Covered request st)

include h

theorem sendWsUpstreamErrorSession_holds {error : String} :
    Holds SafeToDrop (sendWsUpstreamErrorSession env request error) (fun _ => Answered request)
      st := (h.atRest rfl).send (by decide) (h.push rfl rfl)

theorem forwardWsRefusal_holds {statusCode : Nat} {body : List UInt8}
    (hd : d.pending = false) (hid : d.id = request.requestId) :
    Holds SafeToDrop (forwardWsRefusal env request d statusCode headers body)
      (fun _ => Answered request) st := by
  unfold forwardWsRefusal
  dsimp only
  split
  · exact sendWsUpstreamErrorSession_holds h
  · refine (h.atRest rfl).send (by decide) ?_
    split
    · exact h.push rfl hid
    · exact h.push hd hid

theorem acceptWsUpgrade_holds (hd : d.pending = false) (hid : d.id = request.requestId) :
    Holds SafeToDrop (acceptWsUpgrade env request d headers) (fun _ => Answered request) st := by
  unfold acceptWsUpgrade
  split
  · split
    · exact sendWsUpstreamErrorSession_holds h
    · exact (h.atRest rfl).send (by decide) (h.push hd hid)
  · exact (h.atRest rfl).send (by decide) (h.push hd hid)

theorem answerWsHead_holds {head leftover : List UInt8} :
    Holds SafeToDrop (answerWsHead env request head leftover) (fun _ => Answered request) st := by
  unfold answerWsHead
  split
  · exact sendWsUpstreamErrorSession_holds h
  · dsimp only
    split
    · split
      · exact forwardWsRefusal_holds h rfl rfl
      · refine (h.atRest rfl).await fun r => ?_
        cases r with
        | error e => exact sendWsUpstreamErrorSession_holds h
        | ok body => exact forwardWsRefusal_holds h rfl rfl
    · exact acceptWsUpgrade_holds h rfl rfl

theorem answerWsUpgrade_holds :
    Holds SafeToDrop (answerWsUpgrade env request) (fun _ => Answered request) st := by
  unfold answerWsUpgrade
  split
  · exact sendWsUpstreamErrorSession_holds h
  · refine (h.atRest rfl).await fun r => ?_
    cases r with
    | head head leftover => exact answerWsHead_holds h
    | failed error | elapsed => exact sendWsUpstreamErrorSession_holds h

theorem handleWsUpgradeViaHyper_holds : Holds SafeToDrop (handleWsUpgradeViaHyper env request)
      (fun r st' => Answered request st' ∧ ∃ response, r = .ok response) st :=
  (answerWsUpgrade_holds h).bind fun r _ ha => ⟨ha, r, rfl⟩

theorem stageForwardUpstream_holds {localResponse : Option UpstreamResponse} :
    Holds SafeToDrop (stageForwardUpstream env request localResponse)
      (fun r st' => match r with
        | .response _ => Settled request st'
        | _ => Covered request st') st := by
  unfold stageForwardUpstream
  split
  · exact h
  · refine (h.atRest rfl).await fun r => ?_
    split
    · exact h
    · exact (h.atRest rfl).send (by decide) (h.push rfl rfl).disarm
    · exact h

end

/-- The 502 session after an upstream error: the guard is disarmed, so a drop in this send leaves
the pending session without a terminal one. -/
theorem buildUpstreamErrorResponseAndSession_holds {error : ProxyError}
    (h : Accounts request.requestId 0 0 st) :
    Holds SafeToDrop (buildUpstreamErrorResponseAndSession env request error)
      (fun _ => Settled request) st := ⟨⟨_, h⟩, h.push rfl rfl⟩

theorem processResponseRules_holds (h : Covered request st) :
    Holds SafeToDrop (processResponseRules env request response)
      (fun r st' => match r with
        | .error _ => Settled request st'
        | .ok _ => Covered request st') st := by
  unfold processResponseRules
  split
  · exact h
  · split
    · exact (h.atRest rfl).send (by decide) (h.push rfl rfl).disarm
    · exact (h.atRest rfl).await fun _ => h

theorem applyResolution_terminal {resolution : BreakpointResolution} (hd : d.pending = false)
    (hid : d.id = request.requestId) :
    (applyResolution env request resolution response d).2.pending = false ∧
      (applyResolution env request resolution response d).2.id = request.requestId := by
  unfold applyResolution
  split
  · split
    · exact ⟨rfl, rfl⟩
    · exact ⟨hd, hid⟩
  · dsimp only
    split
    · exact ⟨rfl, rfl⟩
    · split_ifs <;> first | exact ⟨rfl, hid⟩ | exact ⟨hd, hid⟩

theorem interceptResponseBreakpoint_holds (h : Covered request st) (hd : d.pending = false)
    (hid : d.id = request.requestId) :
    Holds SafeToDrop (interceptResponseBreakpoint env request response d)
      (fun r st' => match r with
        | .stop _ => Settled request st'
        | .goOn _ d' => Covered request st' ∧ d'.pending = false ∧ d'.id = request.requestId)
      st := by
  unfold interceptResponseBreakpoint
  split
  · exact ⟨h, hd, hid⟩
  · refine (h.atRest rfl).await fun r => ?_
    rcases r with e | _ | resolution
    · exact (h.atRest rfl).send (by decide) (h.push hd hid).disarm
    · exact ⟨h, hd, hid⟩
    · dsimp only
      split
      · exact (h.atRest rfl).send (by decide) (h.push rfl rfl).disarm
      · exact ⟨h, applyResolution_terminal hd hid⟩

theorem respond_holds (h : Settled request st) :
    Holds SafeToDrop (respond env response) (fun _ => Settled request) st := by
  unfold respond
  split
  · exact h
  · refine (h.atRest rfl).await fun r => ?_
    cases r <;> exact h

theorem finishResponse_holds (h : Covered request st) (hd : d.pending = false)
    (hid : d.id = request.requestId) :
    Holds SafeToDrop (finishResponse env selection response d) (fun _ => Settled request) st := by
  refine (h.atRest rfl).responseThrottle fun r => ?_
  cases r with
  | error failure =>
    exact (h.atRest rfl).send (by decide) (h.push (d := d.setFailure _) hd hid).disarm
  | ok u => exact (h.atRest rfl).send (by decide) (respond_holds (h.push hd hid).disarm)

variable (env request) in
theorem responseSessionDetail_terminal (response : UpstreamResponse) :
    (responseSessionDetail env request response).pending = false ∧
      (responseSessionDetail env request response).id = request.requestId := by
  unfold responseSessionDetail
  dsimp only
  split <;> exact ⟨rfl, rfl⟩

theorem stageProcessUpstreamResponse_holds (h : Covered request st) :
    Holds SafeToDrop (stageProcessUpstreamResponse env request response selection)
      (fun _ => Settled request) st := by
  refine (processResponseRules_holds h).bind fun r st' hr => ?_
  cases r with
  | error answer => exact hr
  | ok response =>
    have hd := responseSessionDetail_terminal env request response
    refine (interceptResponseBreakpoint_holds hr hd.1 hd.2).bind fun r st'' hr' => ?_
    cases r with
    | stop result => exact hr'
    | goOn response d => exact finishResponse_holds hr'.1 hr'.2.1 hr'.2.2

theorem forwardAndProcess_holds (h : Covered request st) :
    Holds SafeToDrop (forwardAndProcess env request outcome) (fun _ => Settled request) st := by
  refine (stageForwardUpstream_holds h).bind fun r st' hr => ?_
  cases r with
  | response response => exact hr
  | upstreamError error => exact buildUpstreamErrorResponseAndSession_holds hr.disarm
  | completed response => exact stageProcessUpstreamResponse_holds hr

theorem runWithPendingSession_holds {wsOnUpgrade : Bool} :
    Holds SafeToDrop (runWithPendingSession env wsOnUpgrade request outcome)
      (fun _ => Settled request) .fresh := by
  refine stageSendPendingAndThrottle_holds.bind fun r st hr => ?_
  cases r with
  | throttleFailed response => exact hr.disarm
  | proceed =>
    dsimp only
    split
    · refine (handleWsUpgradeViaHyper_holds hr).bind fun r st' hr' => ?_
      obtain ⟨ha, response, rfl⟩ := hr'
      exact ha.disarm
    · exact forwardAndProcess_holds hr

def Finished (st : State ProxySessionDetail) : Prop := Quiet st ∨ ∃ id, Accounts id 1 0 st

theorem handleHttpRequest_holds :
    Holds SafeToDrop (handleHttpRequest env) (fun _ => Finished) .fresh := by
  refine (stageParseRequest_holds quiet_fresh).bind ?_
  rintro r _ rfl
  rcases r with e | ⟨request, ws⟩ | ⟨request, limit⟩ | request
  · exact .inl quiet_fresh
  · refine (stageApplyRequestRules_holds quiet_fresh).bind ?_
    rintro r _ rfl
    cases r with
    | error e => exact .inl quiet_fresh
    | ok outcome =>
      refine (stageInterceptRequestBreakpoint_holds quiet_fresh).bind fun r st hr => ?_
      rcases r with e | response | response | edited
      · exact .inl hr.1
      · exact .inl hr.1
      · exact .inl hr.1
      · rw [hr.2 edited rfl]
        exact runWithPendingSession_holds.mono fun _ _ h => .inr ⟨_, h⟩
  · exact (rejectStage1Request_holds quiet_fresh _ _).mono fun _ _ h => .inl h
  · exact (rejectStage1Request_holds quiet_fresh _ _).mono fun _ _ h => .inl h

/-- Session accounting. In every outcome of the pipeline in which the pending session of a request
has been handed to the channel, exactly one terminal session with its id is handed to the channel,
if and only if the task was not dropped in the send of the 502 session after an upstream error. -/
theorem session_accounting {ending : Ending (Call Url) SendSite (Except ProxyError ProxyResponse)}
    {log : List ProxySessionDetail} (h : Runs (handleHttpRequest env) .fresh ending log)
    {p : ProxySessionDetail} (hp : p ∈ log) (hpending : p.pending = true) :
    terminals p.id log = 1 ↔ ending ≠ .droppedAtSend .upstreamError := by
  obtain ⟨st, rfl, hst⟩ := h.outcome handleHttpRequest_holds
  have hquiet : ¬ Quiet st := by
    rintro ⟨harmed, hq⟩
    rw [State.drop, harmed, Option.toList_none, append_nil] at hp
    rw [hq p hp] at hpending
    cases hpending
  have hone : ∀ {id : String} {n g : Nat}, Accounts id n g st → terminals p.id st.drop = n + g := by
    intro id n g ha
    rw [ha.id_of_pending hp hpending]
    exact ha.terminals_drop
  have hsafe : ∀ e : Ending (Call Url) SendSite Unit, e ≠ .droppedAtSend .upstreamError →
      SafeToDrop e st → terminals p.id st.drop = 1 := by
    intro e he hs
    unfold SafeToDrop at hs
    split at hs
    · exact absurd rfl he
    · obtain ⟨id, n, g, ha, hn⟩ := hs.resolve_left hquiet
      rw [hone ha, hn]
  cases ending with
  | finished a =>
    obtain ⟨id, ha⟩ := hst.resolve_left hquiet
    exact iff_of_true (hone ha) (by simp)
  | droppedAtCall op => exact iff_of_true (hsafe _ (by simp) hst) (by simp)
  | droppedAtSend site =>
    by_cases hs : site = .upstreamError
    · subst hs
      obtain ⟨id, ha⟩ := hst
      refine iff_of_false ?_ (by simp)
      rw [hone ha]
      decide
    · exact iff_of_true (hsafe _ (by simpa using hs) hst) (by simpa using hs)

def bareRequest : ParsedProxyRequest Unit :=
  ⟨[], .new, "example.com", "GET", "/", "http", [], "", [], "r1", ()⟩

def bareEnv : Env Unit where
  mode := .plainHttp
  lossy := fun _ => ""
  isWsUpgrade := false
  buildParsedRequest := fun body => .ok { bareRequest with body := body }
  applyRequestRuntimeRules := fun request => .ok ⟨request, none, none⟩
  applyResponseRewriteRules := fun _ response => .ok response
  connectHostPort := fun request => request.host ++ ":80"
  buildWsUpgradeRequest := fun _ => .ok ""
  parseUpstreamResponseHead := fun _ => .ok (502, [])
  isValidWsUpgradeHandshake := fun _ _ => false
  refusalBuilds := fun _ => .ok ()
  upgradeBuilds := fun _ => .ok ()
  responseBuilds := fun _ => .ok ()
  relayPermit := true
  classifyUpstreamFailure := fun _ => "other"

/-- The upstream refuses the connection and the client disconnects while the 502 session waits for
room in the channel: the pending session stays without a terminal one. -/
theorem dropped_in_upstream_error_session :
    ∃ log, Runs (handleHttpRequest bareEnv) .fresh (.droppedAtSend .upstreamError) log ∧
      log = [buildPendingSessionDetail bareRequest] ∧ terminals bareRequest.requestId log = 0 := by
  refine ⟨_, .callAnswered (.collected []) ?_, rfl, rfl⟩
  refine .callAnswered (bareRequest, none) ?_
  refine .callAnswered (.ok (bareRequest, none)) ?_
  refine .sendTaken (.guard ?_)
  exact .callAnswered (.error (.upstreamError .connectRefused "refused")) (.guard .sendDropped)

theorem session_accounting_completed :
    ∃ log, Runs (handleHttpRequest bareEnv) .fresh (.finished (.ok ⟨.ok, .bytes []⟩)) log ∧
      buildPendingSessionDetail bareRequest ∈ log ∧ terminals bareRequest.requestId log = 1 := by
  have hrun : Runs (handleHttpRequest bareEnv) .fresh (.finished (.ok ⟨.ok, .bytes []⟩))
      [buildPendingSessionDetail bareRequest,
        buildSessionDetail (fun _ => "") bareRequest 200 .new] := by
    refine .callAnswered (.collected []) (.callAnswered (bareRequest, none) ?_)
    refine .callAnswered (.ok (bareRequest, none)) (.sendTaken (.guard ?_))
    refine .callAnswered (.ok ⟨false, [], 0, .new, none, .ok⟩) ?_
    refine .callAnswered ⟨false, [], 0, .new, none, .ok⟩ (.callAnswered (.ok none) ?_)
    exact .sendTaken (.guard .done)
  refine ⟨_, hrun, mem_cons_self, ?_⟩
  exact (session_accounting hrun mem_cons_self rfl).mpr (by simp)
end AiProxy.Http
