import AiProxy.Rules.ScriptContract
import AiProxy.Rules.Proofs.RewriteProofs

/-!
# Script results

A script result is written field by field, each field before the check of the next one.
-/

namespace AiProxy.Rules

open Http (ParsedProxyRequest UpstreamResponse StatusCode UrlOps buildUpstreamHeadersFromEntries)

/-! ## Rejected results -/

section Rejected

theorem scripted_headers {Url : Type} (request : ParsedProxyRequest Url)
    (scriptRequest : ScriptRequest) (method : String) (url : Url) (update : ScriptBodyUpdate) :
    (scripted request scriptRequest method url update).headers = request.headers := by
  unfold scripted replaceRequestBody
  split <;> rfl

theorem applyScriptResponse_rejection_iff (env : ScriptEnv) (response : UpstreamResponse)
    (scriptResponse : ScriptResponse) (echo : ScriptBodyEcho) :
    (∀ error,
        (applyScriptResponseToRuntime env response scriptResponse (some echo)).2 = .error error →
        (applyScriptResponseToRuntime env response scriptResponse (some echo)).1 = response) ↔
      ResponseWritesAreIdle env response scriptResponse echo := by
  unfold ResponseWritesAreIdle
  cases hstatus : StatusCode.fromU16 scriptResponse.status with
  | error error =>
    have happly : (applyScriptResponseToRuntime env response scriptResponse (some echo)).1
        = response := by
      simp only [applyScriptResponseToRuntime, hstatus]
    exact ⟨fun _ _ _ h => (nomatch h), fun _ _ _ => happly⟩
  | ok status =>
    cases hbody : scriptBodyUpdate env scriptResponse.bodyText scriptResponse.bodyBase64
        (some echo) with
    | error error =>
      have happly : applyScriptResponseToRuntime env response scriptResponse (some echo)
          = ({ response with
                statusCode := status
                responseHeaders := headerMapFromScriptHeaders scriptResponse.headers },
              .error error) := by
        simp only [applyScriptResponseToRuntime, hstatus, hbody]
      rw [happly]
      constructor
      · intro h status' _ hstatus' _
        rw [← Except.ok.inj hstatus', ← h _ rfl]
        exact ⟨rfl, rfl⟩
      · intro h _ _
        obtain ⟨h1, h2⟩ := h status error rfl rfl
        rw [h1, h2]
    | ok update =>
      have happly : (applyScriptResponseToRuntime env response scriptResponse (some echo)).2
          = .ok () := by
        simp only [applyScriptResponseToRuntime, hstatus, hbody]
      rw [happly]
      exact ⟨fun _ _ _ _ h => (nomatch h), fun _ _ h => (nomatch h)⟩

variable {Url : Type} [UrlOps Url] {env : ScriptEnv}

theorem rebuild_eq_iff {written request : ParsedProxyRequest Url} (h : ¬ Rebuildable written)
    (hheaders : written.headers = request.headers) :
    (rebuildRequestRuntimeState written).1 = request ↔
      written = request ∧
        ∀ headers, buildUpstreamHeadersFromEntries request.requestHeaders = .ok headers →
          headers = request.headers := by
  obtain ⟨error, -, ⟨hsame, hnone⟩ | ⟨headers, hsome, hassigned⟩⟩ := rebuild_of_not_rebuildable h
  · rw [hsame]
    refine ⟨fun heq => ⟨heq, fun headers hok => ?_⟩, fun heq => heq.1⟩
    rw [← heq] at hok
    exact absurd hok (hnone headers)
  · rw [hassigned]
    constructor
    · intro heq
      have hassign : written.headers = headers := by rw [hheaders, ← heq]
      have hwritten : written = request := by rw [← heq, ← hassign]
      refine ⟨hwritten, fun headers' hok => ?_⟩
      rw [← hwritten, hsome] at hok
      rw [← Except.ok.inj hok, ← heq]
    · rintro ⟨rfl, hidle⟩
      rw [hidle headers hsome]

theorem applyScriptRequest_eq {request : ParsedProxyRequest Url} {scriptRequest : ScriptRequest}
    {echo : ScriptBodyEcho} {method : String} {url : Url} {update : ScriptBodyUpdate}
    (hmethod : methodFromBytes scriptRequest.method = .ok method)
    (hurl : UrlOps.parse scriptRequest.url = .ok url)
    (hbody : scriptBodyUpdate env scriptRequest.bodyText scriptRequest.bodyBase64 (some echo)
      = .ok update) :
    applyScriptRequestToRuntime env request scriptRequest (some echo)
      = rebuildRequestRuntimeState (scripted request scriptRequest method url update) := by
  simp only [applyScriptRequestToRuntime, hmethod, hurl, hbody]
  rfl

/-! What `RequestWritesAreIdle` says once it is known which checks pass. -/

section Idle

variable {request : ParsedProxyRequest Url} {scriptRequest : ScriptRequest} {echo : ScriptBodyEcho}
  {method : String} {url : Url} {error : String}

theorem writesAreIdle_of_method_error
    (hmethod : methodFromBytes scriptRequest.method = .error error) :
    RequestWritesAreIdle env request scriptRequest echo := by
  constructor
  all_goals
    intros
    simp_all only [reduceCtorEq]

section

variable (hmethod : methodFromBytes scriptRequest.method = .ok method)

include hmethod

theorem writesAreIdle_iff_of_url_error
    (hurl : (UrlOps.parse scriptRequest.url : Except String Url) = .error error) :
    RequestWritesAreIdle env request scriptRequest echo ↔ method = request.method := by
  refine ⟨fun h => h.url method error hmethod hurl, fun h => ⟨fun method' _ hmethod' _ => ?_, ?_, ?_⟩⟩
  · rw [hmethod] at hmethod'
    rw [← Except.ok.inj hmethod', h]
  all_goals
    intros
    simp_all only [reduceCtorEq]

theorem writesAreIdle_iff_of_body_error (hurl : UrlOps.parse scriptRequest.url = .ok url)
    (hbody : scriptBodyUpdate env scriptRequest.bodyText scriptRequest.bodyBase64 (some echo)
      = .error error) :
    RequestWritesAreIdle env request scriptRequest echo ↔
      method = request.method ∧ url = request.url ∧
        entriesFromScriptHeaders scriptRequest.headers = request.requestHeaders := by
  refine ⟨fun h => h.body method url error hmethod hurl hbody,
    fun h => ⟨?_, fun method' url' _ hmethod' hurl' _ => ?_, ?_⟩⟩
  · intros
    simp_all only [reduceCtorEq]
  · rw [hmethod] at hmethod'
    rw [hurl] at hurl'
    rw [← Except.ok.inj hmethod', ← Except.ok.inj hurl']
    exact h
  · intros
    simp_all only [reduceCtorEq]

theorem writesAreIdle_iff_of_ok {update : ScriptBodyUpdate}
    (hurl : UrlOps.parse scriptRequest.url = .ok url)
    (hbody : scriptBodyUpdate env scriptRequest.bodyText scriptRequest.bodyBase64 (some echo)
      = .ok update) :
    RequestWritesAreIdle env request scriptRequest echo ↔
      (¬ Rebuildable (scripted request scriptRequest method url update) →
        scripted request scriptRequest method url update = request ∧
          ∀ headers, buildUpstreamHeadersFromEntries request.requestHeaders = .ok headers →
            headers = request.headers) := by
  refine ⟨fun h => h.rebuild method url update hmethod hurl hbody,
    fun h => ⟨?_, ?_, fun method' url' update' hmethod' hurl' hbody' => ?_⟩⟩
  · intros
    simp_all only [reduceCtorEq]
  · intros
    simp_all only [reduceCtorEq]
  · rw [hmethod] at hmethod'
    rw [hurl] at hurl'
    rw [hbody] at hbody'
    rw [← Except.ok.inj hmethod', ← Except.ok.inj hurl', ← Except.ok.inj hbody']
    exact h

end

end Idle

theorem applyScriptRequest_rejection_iff (env : ScriptEnv)
    (request : ParsedProxyRequest Url) (scriptRequest : ScriptRequest) (echo : ScriptBodyEcho) :
    (∀ error, (applyScriptRequestToRuntime env request scriptRequest (some echo)).2 = .error error →
        (applyScriptRequestToRuntime env request scriptRequest (some echo)).1 = request) ↔
      RequestWritesAreIdle env request scriptRequest echo := by
  -- one case per check, in the order of the source
  cases hmethod : methodFromBytes scriptRequest.method with
  | error error =>
    have happly : (applyScriptRequestToRuntime env request scriptRequest (some echo)).1
        = request := by
      simp only [applyScriptRequestToRuntime, hmethod]
    exact ⟨fun _ => writesAreIdle_of_method_error hmethod, fun _ _ _ => happly⟩
  | ok method =>
    cases hurl : (UrlOps.parse scriptRequest.url : Except String Url) with
    | error error =>
      have happly : applyScriptRequestToRuntime env request scriptRequest (some echo)
          = ({ request with method := method }, .error ("invalid script request url '" ++
              scriptRequest.url ++ "': " ++ error)) := by
        simp only [applyScriptRequestToRuntime, hmethod, hurl]
      rw [happly, writesAreIdle_iff_of_url_error hmethod hurl]
      refine ⟨fun h => ?_, fun h _ _ => by rw [h]⟩
      rw [← h _ rfl]
    | ok url =>
      cases hbody : scriptBodyUpdate env scriptRequest.bodyText scriptRequest.bodyBase64
          (some echo) with
      | error error =>
        have happly : applyScriptRequestToRuntime env request scriptRequest (some echo)
            = ({ request with
                  method := method
                  url := url
                  requestHeaders := entriesFromScriptHeaders scriptRequest.headers },
                .error error) := by
          simp only [applyScriptRequestToRuntime, hmethod, hurl, hbody]
        rw [happly, writesAreIdle_iff_of_body_error hmethod hurl hbody]
        constructor
        · intro h
          rw [← h _ rfl]
          exact ⟨rfl, rfl, rfl⟩
        · rintro ⟨h1, h2, h3⟩ _ _
          rw [h1, h2, h3]
      | ok update =>
        rw [applyScriptRequest_eq hmethod hurl hbody, writesAreIdle_iff_of_ok hmethod hurl hbody]
        by_cases hrebuild : Rebuildable (scripted request scriptRequest method url update)
        · rw [rebuild_of_rebuildable hrebuild]
          exact ⟨fun _ hnot => absurd hrebuild hnot, fun _ _ h => nomatch h⟩
        · obtain ⟨error, herror, -⟩ := rebuild_of_not_rebuildable hrebuild
          have hiff := rebuild_eq_iff hrebuild
            (scripted_headers request scriptRequest method url update)
          exact ⟨fun h _ => hiff.mp (h error herror), fun h _ _ => hiff.mpr (h hrebuild)⟩

theorem map_eq_error_iff {α β : Type} (x : Except String α) (f : α → β) (error : String) :
    x.map f = .error error ↔ x = .error error := by
  cases x with
  | error e =>
    exact ⟨fun h => congrArg _ (Except.error.inj h), fun h => congrArg _ (Except.error.inj h)⟩
  | ok a => exact ⟨fun h => (nomatch h), fun h => (nomatch h)⟩

/-- The result of a hook has no effect if it is rejected, exactly if nothing new is written before the
check that fails. A rejected mock response never touches the request. -/
theorem rejected_result_has_no_effect_iff (env : ScriptEnv) (request : ParsedProxyRequest Url)
    (response : UpstreamResponse) (echo : ScriptBodyEcho) (result : ScriptHookResult) :
    (RequestRejectionHasNoEffect env request echo result ↔
      (result.responseOverride = none → ∀ scriptRequest, result.request = some scriptRequest →
        RequestWritesAreIdle env request scriptRequest echo)) ∧
    (ResponseRejectionHasNoEffect env response echo result ↔
      ∀ scriptResponse, result.response = some scriptResponse →
        ResponseWritesAreIdle env response scriptResponse echo) := by
  constructor
  · unfold RequestRejectionHasNoEffect applyRequestHookResult
    cases result.responseOverride with
    | some overrideResponse => exact ⟨fun _ h => (nomatch h), fun _ _ _ => rfl⟩
    | none =>
      cases result.request with
      | none => exact ⟨fun _ _ _ h => (nomatch h), fun _ _ h => (nomatch h)⟩
      | some scriptRequest =>
        have hiff := applyScriptRequest_rejection_iff env request scriptRequest echo
        refine Iff.trans ?_ (hiff.trans ⟨fun h _ scriptRequest' hsome => ?_,
          fun h => h rfl scriptRequest rfl⟩)
        · exact forall_congr' fun error => imp_congr_left (map_eq_error_iff _ _ error)
        · rw [← Option.some.inj hsome]
          exact h
  · unfold ResponseRejectionHasNoEffect applyResponseHookResult
    cases result.response with
    | none => exact ⟨fun _ _ h => (nomatch h), fun _ _ h => (nomatch h)⟩
    | some scriptResponse =>
      have hiff := applyScriptResponse_rejection_iff env response scriptResponse echo
      refine hiff.trans ⟨fun h scriptResponse' hsome => ?_, fun h => h scriptResponse rfl⟩
      rw [← Option.some.inj hsome]
      exact h

end Rejected

namespace Sample

def scriptEnv : ScriptEnv where
  decodeBodyBytes := fun _ _ => none
  lossy := fun _ => ""
  base64Error := fun _ => "Invalid symbol 33, offset 0."

def response : UpstreamResponse where
  bodyTruncated := false
  responseBody := []
  responseBodySizeBytes := 0
  responseHeaders := []
  spooledResponsePath := none
  statusCode := .ok

/-- A changed method with an invalid header name, and a changed status with a body that is no
base64. -/
def invalidResult : ScriptHookResult where
  request := some ⟨none, none, [⟨"X Trace", "1"⟩], "POST", none, "http://example.com/"⟩
  response := some ⟨some "!", none, [], none, 500⟩
  responseOverride := none

end Sample

open Sample (invalidResult request response scriptEnv)

/-- Both results are rejected, but the new method and the new status stay. -/
theorem rejected_result_changes_message :
    ¬ RequestRejectionHasNoEffect scriptEnv request ⟨none, none⟩
        invalidResult ∧
      (applyRequestHookResult scriptEnv request ⟨none, none⟩
        invalidResult).2.toOption = none ∧
      (applyRequestHookResult scriptEnv request ⟨none, none⟩
        invalidResult).1.method = "POST" ∧
      ¬ ResponseRejectionHasNoEffect scriptEnv response ⟨none, none⟩
        invalidResult ∧
      (applyResponseHookResult scriptEnv response ⟨none, none⟩
        invalidResult).2.toOption = none ∧
      (applyResponseHookResult scriptEnv response ⟨none, none⟩
        invalidResult).1.statusCode.val = 500 := by
  refine ⟨fun h => ?_, by decide, by decide, fun h => ?_, by decide, by decide⟩
  · have hsame := h "invalid header name: invalid HTTP header name" (by decide)
    exact absurd (congrArg (·.method) hsame) (by decide)
  · have hsame := h "decode script body base64: Invalid symbol 33, offset 0." (by decide)
    exact absurd (congrArg (·.statusCode.val) hsame) (by decide)

end AiProxy.Rules
