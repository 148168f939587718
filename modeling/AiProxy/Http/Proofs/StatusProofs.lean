import AiProxy.Http.Proofs.PipelineProofs

/-!
# Proofs: the recorded status and the status on the wire

Every path of the pipeline that ends in a response has sent one terminal session, which shows the
status of the response as long as every step keeps the status.
-/

namespace AiProxy.Http

open Option List
open AiProxy.Task (State Ensures Finishes)

variable {Url : Type} {env : Env Url} {request : ParsedProxyRequest Url}
  {st : State ProxySessionDetail} {selection : Option ThrottleSelection}

variable {d : ProxySessionDetail} {response : UpstreamResponse} {headers : List (String × String)}
  {resolution : BreakpointResolution} {outcome : RequestRuntimeOutcome Url}
  {st' : State ProxySessionDetail}

theorem isPseudo_of_mem_entries {lossy : List UInt8 → String} {headers : HeaderMap}
    {e : ProxyHeaderEntry} (h : e ∈ buildHeaderEntriesFromMap lossy headers) :
    e.isPseudo = none := by
  obtain ⟨header, -, rfl⟩ := mem_map.mp h
  rfl

theorem showsStatus_of_plain {status : StatusCode} (hstatus : d.statusCode = status.val)
    (hplain : ∀ e ∈ d.responseHeaders, e.isPseudo = none) :
    d.ShowsStatus status := by
  refine ⟨hstatus, fun e he _ hpseudo => ?_⟩
  rw [hplain e he] at hpseudo
  cases hpseudo

variable (env request) in
theorem showsStatus_buildSessionDetail (status : StatusCode) (headers : HeaderMap) :
    (buildSessionDetail env.lossy request status.val headers).ShowsStatus status :=
  showsStatus_of_plain rfl fun _ he => isPseudo_of_mem_entries he

/-- One terminal session has been added to the log, and it shows the status of the response. -/
def Recorded (st : State ProxySessionDetail) (response : ProxyResponse)
    (st' : State ProxySessionDetail) : Prop :=
  ∃ d, d.pending = false ∧ st'.log = st.log ++ [d] ∧ d.ShowsStatus response.status

/-- The same for a result that may be an error, of which the client sees no response. -/
def OkRecorded (st : State ProxySessionDetail) (result : Except ProxyError ProxyResponse)
    (st' : State ProxySessionDetail) : Prop :=
  ∀ response, result = .ok response → Recorded st response st'

/-- Every trace of this part of the pipeline whose steps keep the status ends in `post`. -/
abbrev Tracks {α : Type} (env : Env Url) (x : Pipe Url α)
    (post : α → State ProxySessionDetail → Prop) (st : State ProxySessionDetail) : Prop :=
  Ensures (KeepsStatus env.mode) x post st

def Silent {α : Type} (st : State ProxySessionDetail) (_ : α) (st' : State ProxySessionDetail) : Prop :=
  st' = st

theorem Recorded.of_shows {response : ProxyResponse} {armed : Option ProxySessionDetail}
    (hd : d.pending = false) (hshows : d.ShowsStatus response.status) :
    Recorded st response ⟨st.log ++ [d], armed⟩ := ⟨d, hd, rfl, hshows⟩

open Recorded (of_shows)

theorem requestThrottle_ends : Tracks env (requestThrottle selection) (Silent st) st := by
  unfold requestThrottle
  split
  · exact rfl
  · exact fun _ _ => rfl

theorem responseThrottle_ends : Tracks env (responseThrottle selection) (Silent st) st := by
  unfold responseThrottle
  split
  · exact rfl
  · exact fun _ _ => rfl

theorem stageParseRequest_ends : Tracks env (stageParseRequest env) (Silent st) st := by
  intro body _
  cases body <;> exact rfl

theorem rejectStage1Request_ends (status : StatusCode) (message : String) :
    Tracks env (rejectStage1Request env request status message) (OkRecorded st) st := by
  intro _ response hresponse
  cases hresponse
  exact of_shows rfl (showsStatus_buildSessionDetail env request status .new)

theorem stageApplyRequestRules_ends :
    Tracks env (stageApplyRequestRules env request) (Silent st) st := by
  unfold stageApplyRequestRules
  split
  · exact rfl
  · split
    · exact rfl
    · exact fun _ _ => rfl

theorem buildThrottleFailureResponse_ends {error : String} :
    Tracks env (buildThrottleFailureResponse env request error) (Recorded st) st := fun _ =>
  of_shows rfl (showsStatus_buildSessionDetail env request .gatewayTimeout .new)

/-- How the request breakpoint leaves the request: answered and recorded, or untouched. -/
def Intercepted (st : State ProxySessionDetail)
    (outcome : Except ProxyError (BreakpointRequestOutcome Url)) (st' : State ProxySessionDetail) :
    Prop :=
  match outcome with
  | .error _ => True
  | .ok (.drop response) | .ok (.mock response) => Recorded st response st'
  | .ok (.forward _) => st' = st

theorem buildHyperResponseFromUpstream_status {body : ResponseBody} {answer : ProxyResponse}
    (h : buildHyperResponseFromUpstream env response body = .ok answer) :
    answer.status = response.statusCode := by
  unfold buildHyperResponseFromUpstream at h
  split at h
  · cases h
  · cases h
    rfl

theorem answerMock_ends (mock : MockResponse) :
    Tracks env (answerMock env request selection mock) (Intercepted st) st := by
  refine requestThrottle_ends.bind ?_
  rintro result _ rfl
  cases result with
  | error failure => exact buildThrottleFailureResponse_ends.bind fun _ _ h => h
  | ok u =>
    dsimp only
    split
    · trivial
    · intro response _
      refine responseThrottle_ends.bind ?_
      rintro result _ rfl
      cases result with
      | error failure =>
        exact fun _ => of_shows rfl (showsStatus_buildSessionDetail env request .gatewayTimeout .new)
      | ok u =>
        intro _
        show Intercepted _ (Except.map _ _) _
        cases hanswer : buildHyperResponseFromUpstream env response
            (.bytes response.responseBody) with
        | error e => trivial
        | ok answer =>
          refine of_shows rfl ?_
          rw [buildHyperResponseFromUpstream_status hanswer]
          exact showsStatus_buildSessionDetail env request _ _

theorem stageInterceptRequestBreakpoint_ends :
    Tracks env (stageInterceptRequestBreakpoint env request selection) (Intercepted st) st := by
  refine Ensures.await fun answer _ => ?_
  rcases answer with e | ⟨requestMut, _ | resolution⟩
  · trivial
  · exact rfl
  · dsimp only
    cases resolution.action with
    | drop =>
      refine Ensures.send fun _ => ?_
      show Intercepted _ (Except.map _ _) _
      cases hmode : env.mode with
      | plainHttp => trivial
      | mitmHttps h2 =>
        exact of_shows rfl (showsStatus_buildSessionDetail env requestMut .noContent .new)
    | mock =>
      cases resolution.mock with
      | none => exact rfl
      | some mock => exact answerMock_ends mock
    | forward => exact rfl

theorem sendWsUpstreamErrorSession_ends {error : String} :
    Tracks env (sendWsUpstreamErrorSession env request error) (Recorded st) st := fun _ =>
  of_shows rfl (showsStatus_buildSessionDetail env request .badGateway .new)

theorem statusOrBadGateway_val (status : StatusCode) :
    (statusOrBadGateway status.val).val = status.val := by
  unfold statusOrBadGateway StatusCode.fromU16
  rw [dif_pos status.valid]

/-- The refusal is recorded with the number the upstream has sent, which is a status code. -/
theorem forwardWsRefusal_ends {statusCode : Nat} {body : List UInt8}
    (hd : d.pending = false) (hstatus : d.statusCode = statusCode)
    (hplain : ∀ e ∈ d.responseHeaders, e.isPseudo = none) :
    Tracks env (forwardWsRefusal env request d statusCode headers body) (Recorded st) st := by
  unfold forwardWsRefusal
  split
  · exact sendWsUpstreamErrorSession_ends
  · refine Ensures.send fun hvalid => ?_
    by_cases h101 : statusCode = 101
    · simp only [h101, decide_true, if_true]
      refine of_shows rfl (showsStatus_of_plain rfl ?_)
      refine forall_mem_append.mpr ⟨fun e he => ?_, forall_mem_singleton.mpr rfl⟩
      exact hplain e (mem_of_mem_filter he)
    · simp only [h101, decide_false, Bool.false_eq_true, if_false] at hvalid ⊢
      obtain ⟨status, hcode⟩ := hvalid
      refine of_shows hd (showsStatus_of_plain ?_ hplain)
      rw [← hstatus, hcode]
      exact (statusOrBadGateway_val status).symm

theorem acceptWsUpgrade_ends (hd : d.pending = false) (hstatus : d.statusCode = 101)
    (hplain : ∀ e ∈ d.responseHeaders, e.isPseudo = none) :
    Tracks env (acceptWsUpgrade env request d headers) (Recorded st) st := by
  unfold acceptWsUpgrade
  split
  · split
    · exact sendWsUpstreamErrorSession_ends
    · exact fun _ => of_shows hd (showsStatus_of_plain hstatus hplain)
  · exact fun _ => of_shows hd (showsStatus_of_plain rfl hplain)

theorem answerWsHead_ends {head leftover : List UInt8} :
    Tracks env (answerWsHead env request head leftover) (Recorded st) st := by
  unfold answerWsHead
  split
  · exact sendWsUpstreamErrorSession_ends
  · dsimp only
    split
    · split
      · exact forwardWsRefusal_ends rfl rfl fun _ he => isPseudo_of_mem_entries he
      · refine Ensures.await fun answer _ => ?_
        cases answer with
        | error e => exact sendWsUpstreamErrorSession_ends
        | ok body => exact forwardWsRefusal_ends rfl rfl fun _ he => isPseudo_of_mem_entries he
    · next hupgrade =>
      refine acceptWsUpgrade_ends rfl ?_ fun _ he => isPseudo_of_mem_entries he
      by_contra h101
      exact hupgrade (.inl h101)

theorem answerWsUpgrade_ends : Tracks env (answerWsUpgrade env request) (Recorded st) st := by
  unfold answerWsUpgrade
  split
  · exact sendWsUpstreamErrorSession_ends
  · refine Ensures.await fun answer _ => ?_
    cases answer with
    | head head leftover => exact answerWsHead_ends
    | failed error | elapsed => exact sendWsUpstreamErrorSession_ends

/-! ### The response -/

/-- The upstream has been reached, or has failed, or has not answered in time; in the last case the
timeout has been recorded. -/
theorem stageForwardUpstream_ends {localResponse : Option UpstreamResponse} :
    Tracks env (stageForwardUpstream env request localResponse)
      (fun outcome st' => match outcome with
        | .response response => Recorded st response st'
        | _ => st' = st) st := by
  unfold stageForwardUpstream
  split
  · exact rfl
  · refine Ensures.await fun answer _ => ?_
    split
    · exact rfl
    · exact fun _ => of_shows rfl (showsStatus_buildSessionDetail env request .gatewayTimeout .new)
    · exact rfl

theorem processResponseRules_ends :
    Tracks env (processResponseRules env request response)
      (fun result st' => match result with
        | .error answer => Recorded st answer st'
        | .ok _ => st' = st) st := by
  unfold processResponseRules
  split
  · exact rfl
  · split
    · exact fun _ => of_shows rfl (showsStatus_buildSessionDetail env request .badGateway .new)
    · exact fun _ _ => rfl

section

variable (env request) (response : UpstreamResponse)

theorem responseSessionDetail_pseudo {e : ProxyHeaderEntry}
    (he : e ∈ (responseSessionDetail env request response).responseHeaders) :
    e.isPseudo = none ∨
      env.mode.isH2 = true ∧ e = ⟨":status", toString response.statusCode.val, some true⟩ := by
  unfold responseSessionDetail at he
  dsimp only at he
  split at he
  · next hh2 =>
    rcases mem_cons.mp he with rfl | he
    · exact .inr ⟨hh2, rfl⟩
    · exact .inl (isPseudo_of_mem_entries he)
  · exact .inl (isPseudo_of_mem_entries he)

theorem responseSessionDetail_statusCode :
    (responseSessionDetail env request response).statusCode = response.statusCode.val := by
  unfold responseSessionDetail
  split <;> rfl

theorem showsStatus_responseSessionDetail :
    (responseSessionDetail env request response).ShowsStatus response.statusCode := by
  refine ⟨responseSessionDetail_statusCode env request response, fun e he _ hpseudo => ?_⟩
  rcases responseSessionDetail_pseudo env request response he with hnone | ⟨-, rfl⟩
  · rw [hnone] at hpseudo
    cases hpseudo
  · rfl

end

theorem applyResponseResolution_statusCode (h : resolution.modifiedResponseStatusCode = none) :
    (applyResponseResolution resolution response).statusCode = response.statusCode := by
  unfold applyResponseResolution
  rw [h]
  cases resolution.modifiedResponseHeaders <;> cases resolution.modifiedResponseBodyBase64 <;> rfl

variable (env request) in
theorem applyResolution_forward (haction : resolution.action = .forward)
    (hbody : resolution.modifiedResponseBodyBase64 = none)
    (hstatus : d.statusCode = response.statusCode.val) :
    (applyResolution env request resolution response d).1 =
        applyResponseResolution resolution response ∧
      (applyResolution env request resolution response d).2.statusCode =
        (applyResponseResolution resolution response).statusCode.val ∧
      (applyResolution env request resolution response d).2.responseHeaders =
        if resolution.modifiedResponseHeaders.isSome then
          buildHeaderEntriesFromMap env.lossy
            (applyResponseResolution resolution response).responseHeaders
        else d.responseHeaders := by
  unfold applyResolution
  rw [haction, hbody]
  dsimp only [isSome_none, Bool.false_eq_true, if_false]
  cases hcode : resolution.modifiedResponseStatusCode with
  | none =>
    rw [applyResponseResolution_statusCode hcode]
    cases hheaders : resolution.modifiedResponseHeaders with
    | none | some headers => exact ⟨rfl, hstatus, rfl⟩
  | some code =>
    cases hheaders : resolution.modifiedResponseHeaders with
    | none | some headers => exact ⟨rfl, rfl, rfl⟩

variable (env request) in
/-- After a resolution that does not drop the response, the session shows the new status, unless
the resolution changes only the status of an HTTP/2 response. -/
theorem applyResolution_shows (response : UpstreamResponse) (hdrop : resolution.action ≠ .drop)
    (hkeeps : env.mode.isH2 = true → ¬ ChangesStatusOnly resolution response) :
    (applyResolution env request resolution response
      (responseSessionDetail env request response)).2.ShowsStatus
        (applyResolution env request resolution response
          (responseSessionDetail env request response)).1.statusCode := by
  cases haction : resolution.action with
  | drop => exact absurd haction hdrop
  | mock =>
    unfold applyResolution
    rw [haction]
    dsimp only
    split
    · exact showsStatus_buildSessionDetail env request _ _
    · exact showsStatus_responseSessionDetail env request response
  | forward =>
    cases hbody : resolution.modifiedResponseBodyBase64 with
    | some body =>
      unfold applyResolution
      rw [haction, hbody]
      exact showsStatus_buildSessionDetail env request _ _
    | none =>
      obtain ⟨hresponse, hcode, hentries⟩ := applyResolution_forward env request haction hbody
        (responseSessionDetail_statusCode env request response)
      rw [hresponse]
      cases hheaders : resolution.modifiedResponseHeaders with
      | some headers =>
        rw [hheaders, isSome_some, if_pos rfl] at hentries
        refine showsStatus_of_plain hcode fun e he => ?_
        rw [hentries] at he
        exact isPseudo_of_mem_entries he
      | none =>
        rw [hheaders, isSome_none, if_neg Bool.false_ne_true] at hentries
        -- the entries are those of the upstream's response
        refine ⟨hcode, fun e he _ hpseudo => ?_⟩
        rw [hentries] at he
        rcases responseSessionDetail_pseudo env request response he with hnone | ⟨hh2, rfl⟩
        · rw [hnone] at hpseudo
          cases hpseudo
        · by_contra hvalue
          refine hkeeps hh2 ⟨haction, hheaders, hbody, fun hsame => hvalue ?_⟩
          rw [hsame]

theorem interceptResponseBreakpoint_ends :
    Tracks env (interceptResponseBreakpoint env request response
        (responseSessionDetail env request response))
      (fun outcome st' => match outcome with
        | .stop result => OkRecorded st result st'
        | .goOn response d => st' = st ∧ d.pending = false ∧ d.ShowsStatus response.statusCode) st := by
  have hd := responseSessionDetail_terminal env request response
  unfold interceptResponseBreakpoint
  split
  · exact ⟨rfl, hd.1, showsStatus_responseSessionDetail env request response⟩
  · refine Ensures.await fun answer hkeeps => ?_
    rcases answer with e | _ | resolution
    · intro _ response hresponse
      cases hresponse
    · exact ⟨rfl, hd.1, showsStatus_responseSessionDetail env request response⟩
    · dsimp only
      split
      · refine Ensures.send fun _ => ?_
        show OkRecorded st (handleDropAction env.mode) _
        intro answer hanswer
        cases hmode : env.mode with
        | plainHttp =>
          rw [hmode] at hanswer
          cases hanswer
        | mitmHttps h2 =>
          rw [hmode] at hanswer
          cases hanswer
          exact of_shows rfl (showsStatus_buildSessionDetail env request .noContent .new)
      · next hdrop =>
        exact ⟨rfl, (applyResolution_terminal hd.1 hd.2).1,
          applyResolution_shows env request response hdrop hkeeps⟩

theorem respond_ends : Tracks env (respond env response)
      (fun result st' => st' = st ∧
        ∀ answer, result = .ok answer → answer.status = response.statusCode) st := by
  unfold respond
  split
  · exact ⟨rfl, fun _ => buildHyperResponseFromUpstream_status⟩
  · refine Ensures.await fun opened _ => ?_
    cases opened with
    | error e =>
      refine ⟨rfl, fun _ hanswer => ?_⟩
      cases hanswer
    | ok u => exact ⟨rfl, fun _ => buildHyperResponseFromUpstream_status⟩

/-- The response throttle and the session. A response that the throttle drops would be recorded with
its own status, while the client receives 504. -/
theorem finishResponse_ends (hd : d.pending = false) (hshows : d.ShowsStatus response.statusCode) :
    Tracks env (finishResponse env selection response d) (OkRecorded st) st := by
  refine responseThrottle_ends.bind ?_
  rintro result _ rfl
  cases result with
  | error failure => exact False.elim
  | ok u =>
    refine Ensures.send fun _ => Ensures.disarm (respond_ends.mono ?_)
    rintro result _ ⟨rfl, hstatus⟩ answer hanswer
    refine ⟨d, hd, rfl, ?_⟩
    rw [hstatus answer hanswer]
    exact hshows

theorem stageProcessUpstreamResponse_ends :
    Tracks env (stageProcessUpstreamResponse env request response selection) (OkRecorded st) st := by
  refine processResponseRules_ends.bind fun result st₁ hrules => ?_
  cases result with
  | error answer =>
    intro response hresponse
    cases hresponse
    exact hrules
  | ok response =>
    obtain rfl := hrules
    refine interceptResponseBreakpoint_ends.bind fun outcome st₂ hbreak => ?_
    cases outcome with
    | stop result => exact hbreak
    | goOn response d =>
      obtain ⟨rfl, hd, hshows⟩ := hbreak
      exact finishResponse_ends hd hshows

/-! ### The request handler -/

theorem forwardAndProcess_ends :
    Tracks env (forwardAndProcess env request outcome) (OkRecorded st) st := by
  refine stageForwardUpstream_ends.bind fun forwarded st₁ hforward => ?_
  cases forwarded with
  | response response =>
    intro answer hanswer
    cases hanswer
    exact hforward
  | upstreamError error =>
    obtain rfl := hforward
    intro _ answer hanswer
    cases hanswer
    exact of_shows rfl (showsStatus_buildSessionDetail env request .badGateway .new)
  | completed response =>
    obtain rfl := hforward
    exact stageProcessUpstreamResponse_ends

theorem stageSendPendingAndThrottle_ends :
    Tracks env (stageSendPendingAndThrottle env request selection)
      (fun outcome st' => match outcome with
        | .throttleFailed response =>
          Recorded ⟨st.log ++ [buildPendingSessionDetail request], none⟩ response st'
        | .proceed => st'.log = st.log ++ [buildPendingSessionDetail request]) st := by
  refine Ensures.send fun _ => requestThrottle_ends.bind ?_
  rintro result _ rfl
  cases result with
  | ok u => exact rfl
  | error failure => exact buildThrottleFailureResponse_ends.bind fun _ _ hrecorded => hrecorded

theorem Recorded.congr {st₁ st₂ st'' : State ProxySessionDetail} {response : ProxyResponse}
    (h : Recorded st₁ response st') (hlog : st₁.log = st₂.log) (hlog' : st'.log = st''.log) :
    Recorded st₂ response st'' := by
  obtain ⟨d, hd, hsent, hshows⟩ := h
  exact ⟨d, hd, by rw [← hlog', hsent, hlog], hshows⟩

theorem runWithPendingSession_ends {wsOnUpgrade : Bool} :
    Tracks env (runWithPendingSession env wsOnUpgrade request outcome)
      (OkRecorded ⟨st.log ++ [buildPendingSessionDetail request], none⟩) st := by
  refine stageSendPendingAndThrottle_ends.bind fun result st₁ hpending => ?_
  cases result with
  | throttleFailed response =>
    intro answer hanswer
    cases hanswer
    exact hpending.congr rfl rfl
  | proceed =>
    dsimp only
    split
    · have hanswered : Tracks env (handleWsUpgradeViaHyper env request)
          (fun result st' => ∃ response, result = .ok response ∧ Recorded st₁ response st') st₁ :=
        answerWsUpgrade_ends.bind fun response _ hrecorded => ⟨response, rfl, hrecorded⟩
      refine hanswered.bind ?_
      rintro _ st₂ ⟨response, rfl, hrecorded⟩ answer hanswer
      cases hanswer
      exact hrecorded.congr hpending rfl
    · refine forwardAndProcess_ends.mono fun result st₂ hrecorded answer hanswer => ?_
      exact (hrecorded answer hanswer).congr hpending rfl

theorem OkRecorded.records {result : Except ProxyError ProxyResponse} (h : OkRecorded st result st')
    (hpending : ∀ d ∈ st.log, d.pending = true) :
    ∀ response, result = .ok response → RecordsWireStatus st'.log response := by
  intro response hresponse
  obtain ⟨d, hd, hlog, hshows⟩ := h response hresponse
  refine ⟨d, ?_, hshows⟩
  have hnone : st.log.filter (fun d => !d.pending) = [] := by
    rw [filter_eq_nil_iff]
    intro e he
    rw [hpending e he]
    decide
  rw [hlog, filter_append, hnone, nil_append]
  exact filter_cons_of_pos (by rw [hd]; rfl)

theorem Recorded.records_fresh {answer : ProxyResponse} {st : State ProxySessionDetail}
    (h : Recorded .fresh answer st) :
    ∀ response, (.ok answer : Except ProxyError ProxyResponse) = .ok response →
      RecordsWireStatus st.log response := by
  have hok : OkRecorded .fresh (.ok answer) st := by
    intro response hresponse
    cases hresponse
    exact h
  exact hok.records fun _ hd => absurd hd not_mem_nil

theorem runStages_ends {wsOnUpgrade : Bool} :
    Tracks env (runStages env request wsOnUpgrade)
      (fun result st => ∀ response, result = .ok response → RecordsWireStatus st.log response)
      .fresh := by
  refine stageApplyRequestRules_ends.bind ?_
  rintro result _ rfl
  cases result with
  | error e =>
    intro response hresponse
    cases hresponse
  | ok outcome =>
    refine stageInterceptRequestBreakpoint_ends.bind fun result st₂ hbreak => ?_
    rcases result with e | response | response | edited
    · intro response hresponse
      cases hresponse
    · exact hbreak.records_fresh
    · exact hbreak.records_fresh
    · obtain rfl := hbreak
      refine runWithPendingSession_ends.mono fun result st₃ hrecorded => ?_
      refine hrecorded.records fun d hd => ?_
      rw [mem_singleton.mp hd]
      rfl

theorem handleHttpRequest_ends :
    Tracks env (handleHttpRequest env)
      (fun result st => ∀ response, result = .ok response → RecordsWireStatus st.log response)
      .fresh := by
  refine stageParseRequest_ends.bind ?_
  rintro result _ rfl
  rcases result with e | ⟨request, ws⟩ | ⟨request, limit⟩ | request
  · intro response hresponse
    cases hresponse
  · exact runStages_ends
  · exact (rejectStage1Request_ends _ _).mono fun _ _ hrecorded =>
      hrecorded.records fun _ hd => absurd hd not_mem_nil
  · exact (rejectStage1Request_ends _ _).mono fun _ _ hrecorded =>
      hrecorded.records fun _ hd => absurd hd not_mem_nil

theorem finished_drop {st : State ProxySessionDetail} (h : Finished st) : st.drop = st.log := by
  rcases h with ⟨harmed, -⟩ | ⟨id, hid⟩
  · rw [State.drop, harmed, toList_none, append_nil]
  · rw [State.drop, length_eq_zero_iff.mp hid.armed.1, append_nil]

namespace Sample

def upstreamOk : UpstreamResponse := ⟨false, [], 0, .new, none, .ok⟩

def throttledEnv : Env Unit :=
  { bareEnv with applyRequestRuntimeRules := fun request => .ok ⟨request, none, some ⟨none⟩⟩ }

def http2Env : Env Unit := { bareEnv with mode := .mitmHttps true }

/-- The upstream answers 200; the response throttle and the response breakpoint answer as given. -/
def answers (throttle : Except String Unit) (resolution : Option BreakpointResolution) :
    (op : Call Unit) → op.Answer
  | .readBody => .collected []
  | .requestScripts request => (request, none)
  | .interceptRequest request => .ok (request, none)
  | .requestThrottle _ => .ok ()
  | .responseScripts _ response => response
  | .responseThrottle _ => throttle
  | .wsEstablish _ _ => .elapsed
  | .wsReadBody leftover => .ok leftover
  | .forwardRequest _ => .ok upstreamOk
  | .interceptResponse _ _ => .ok resolution
  | .openSpoolFile _ => .ok ()

def notFoundEdit : BreakpointResolution := ⟨.forward, none, some 404, none, none⟩

def completed := Task.play (answers (.ok ()) none) (handleHttpRequest bareEnv) .fresh

def dropped := Task.play (answers (.error "packet loss") none) (handleHttpRequest throttledEnv) .fresh

def edited := Task.play (answers (.ok ()) (some notFoundEdit)) (handleHttpRequest http2Env) .fresh

end Sample

end AiProxy.Http
