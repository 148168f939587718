import AiProxy.Rules.Proofs.ScriptProofs

/-!
# Bodies that a script does not touch

A script that gets a body as text hands back the text and the base64 text, and both together are
recognized.
-/

namespace AiProxy.Rules

open List
open Http (ParsedProxyRequest UpstreamResponse ProxyHeaderEntry HeaderValue StatusCode UrlOps
  asBytes toAsciiLowercase eqIgnoreAsciiCase setHeaderEntry buildUpstreamHeadersFromEntries)

variable {name : String} {entries : List ProxyHeaderEntry}

theorem entriesNamed_setHost (h : name ∈ bodyHeaderNames) (value : String) :
    entriesNamed name (setHeaderEntry entries "Host" value) = entriesNamed name entries := by
  have hhost : eqIgnoreAsciiCase "Host" name = false := by
    revert name
    decide
  have hne : toAsciiLowercase "Host" ≠ toAsciiLowercase name := of_decide_eq_false hhost
  unfold entriesNamed setHeaderEntry
  rw [filter_append, filter_filter, filter_cons_of_neg (by rw [hhost]; decide)]
  rw [filter_nil, append_nil]
  refine filter_congr fun entry _ => ?_
  cases hentry : eqIgnoreAsciiCase entry.name name with
  | false => rfl
  | true =>
    have hname : toAsciiLowercase entry.name = toAsciiLowercase name := of_decide_eq_true hentry
    have hother : eqIgnoreAsciiCase entry.name "Host" = false :=
      decide_eq_false fun heq => hne (heq.symm.trans hname)
    rw [hother]
    rfl

section Echo

variable {Url : Type} (env : ScriptEnv) (body : List UInt8)
  (contentType contentEncoding : Option HeaderValue)

/-- The update that the body fields make when they come back as they were. -/
def echoUpdate : Except String ScriptBodyUpdate :=
  scriptBodyUpdate env (bodyTextAndBase64 env body contentType contentEncoding).1
    (bodyTextAndBase64 env body contentType contentEncoding).2.1
    (some ⟨(bodyTextAndBase64 env body contentType contentEncoding).1,
      (bodyTextAndBase64 env body contentType contentEncoding).2.1⟩)

variable {env body contentEncoding}

theorem bodyTextAndBase64_of_ne_nil (h : body ≠ []) :
    bodyTextAndBase64 env body contentType contentEncoding
      = (String.fromUTF8? ⟨(decodedForScript env body contentEncoding).toArray⟩,
          some (Base64.encode (decodedForScript env body contentEncoding)),
          bodyMimeType contentType) := by
  unfold bodyTextAndBase64 buildBodyReference
  rw [if_neg h]

theorem echoUpdate_text (h : SeenAsText env body contentEncoding) :
    echoUpdate env body contentType contentEncoding
      = .ok ⟨decodedForScript env body contentEncoding, true⟩ := by
  obtain ⟨hne, htext⟩ := h
  obtain ⟨text, htext⟩ := Option.isSome_iff_exists.mp htext
  unfold echoUpdate
  rw [bodyTextAndBase64_of_ne_nil contentType hne, htext]
  simp only [scriptBodyUpdate, Base64.decode_encode, ne_eq, not_true_eq_false, decide_false,
    Bool.not_false, Bool.and_self, if_true]

end Echo

section Request

variable {Url : Type} [UrlOps Url]

theorem rebuild_body (request : ParsedProxyRequest Url) :
    (rebuildRequestRuntimeState request).1.body = request.body := by
  unfold rebuildRequestRuntimeState
  split
  · rfl
  · dsimp only
    split <;> rfl

theorem rebuild_ok {request : ParsedProxyRequest Url}
    (h : (rebuildRequestRuntimeState request).2 = .ok ()) :
    buildUpstreamHeadersFromEntries request.requestHeaders
        = .ok (rebuildRequestRuntimeState request).1.headers ∧
      ∃ host, (rebuildRequestRuntimeState request).1.requestHeaders
        = setHeaderEntry request.requestHeaders "Host" host := by
  unfold rebuildRequestRuntimeState at h ⊢
  cases hheaders : buildUpstreamHeadersFromEntries request.requestHeaders with
  | error error =>
    rw [hheaders] at h
    cases h
  | ok headers =>
    rw [hheaders] at h
    cases hhost : UrlOps.hostStr request.url with
    | none =>
      simp only [hhost] at h
      cases h
    | some host =>
      simp only [hhost]
      exact ⟨trivial, _, rfl⟩

variable {env : ScriptEnv} {request : ParsedProxyRequest Url} {scriptRequest : ScriptRequest}

/-- A text that comes back as it was is no edit: the body is kept, and so are the headers about it. -/
theorem keepsRequestBody (htext : scriptRequest.bodyText = (requestEcho env request).text)
    (hbase64 : scriptRequest.bodyBase64 = (requestEcho env request).base64)
    (hseen : SeenAsText env request.body (request.headers.get "content-encoding")) :
    KeepsRequestBody request scriptRequest
      (applyScriptRequestToRuntime env request scriptRequest (some (requestEcho env request))) := by
  -- the first two checks come before the body
  cases hmethod : methodFromBytes scriptRequest.method with
  | error error =>
    simp only [applyScriptRequestToRuntime, hmethod]
    refine ⟨rfl, fun h => ?_, fun h => ?_⟩ <;> cases h
  | ok method =>
    cases hurl : (UrlOps.parse scriptRequest.url : Except String Url) with
    | error error =>
      simp only [applyScriptRequestToRuntime, hmethod, hurl]
      refine ⟨rfl, fun h => ?_, fun h => ?_⟩ <;> cases h
    | ok url =>
      have hupdate : scriptBodyUpdate env scriptRequest.bodyText scriptRequest.bodyBase64
          (some (requestEcho env request)) = .ok ⟨decodedForScript env request.body
            (request.headers.get "content-encoding"), true⟩ := by
        rw [htext, hbase64]
        exact echoUpdate_text (request.headers.get "content-type") hseen
      rw [applyScriptRequest_eq hmethod hurl hupdate]
      refine ⟨rebuild_body _, fun hok name hname => ?_, fun hok => (rebuild_ok hok).1⟩
      obtain ⟨-, host, hentries⟩ := rebuild_ok hok
      rw [hentries, entriesNamed_setHost hname]
      rfl

end Request

theorem keepsResponseBody {env : ScriptEnv} {response : UpstreamResponse}
    {scriptResponse : ScriptResponse}
    (htext : scriptResponse.bodyText = (responseEcho env response).text)
    (hbase64 : scriptResponse.bodyBase64 = (responseEcho env response).base64)
    (hseen : SeenAsText env response.responseBody (response.responseHeaders.get "content-encoding")) :
    KeepsResponseBody response scriptResponse
      (applyScriptResponseToRuntime env response scriptResponse
        (some (responseEcho env response))) := by
  cases hstatus : StatusCode.fromU16 scriptResponse.status with
  | error error =>
    simp only [applyScriptResponseToRuntime, hstatus]
    refine ⟨rfl, fun h => ?_⟩
    cases h
  | ok status =>
    have hupdate : scriptBodyUpdate env scriptResponse.bodyText scriptResponse.bodyBase64
        (some (responseEcho env response)) = .ok ⟨decodedForScript env response.responseBody
          (response.responseHeaders.get "content-encoding"), true⟩ := by
      rw [htext, hbase64]
      exact echoUpdate_text (response.responseHeaders.get "content-type") hseen
    simp only [applyScriptResponseToRuntime, hstatus, hupdate]
    exact ⟨rfl, fun _ _ _ => rfl⟩

namespace Sample

def imageResponse : UpstreamResponse :=
  { response with
    responseBody := [0x89, 0xff]
    responseBodySizeBytes := 2
    responseHeaders := [("etag", [asBytes "a"])] }

def emptyRequest : ParsedProxyRequest HostUrl :=
  { request with
    headers := [("etag", [asBytes "a"])]
    requestHeaders := [⟨"Host", "example.com", none⟩, ⟨"etag", "a", none⟩] }

def textRequest : ParsedProxyRequest HostUrl := { emptyRequest with body := asBytes "hi" }

def echoedText : ScriptRequest := (buildScriptRequest scriptEnv "default" .request textRequest).2

def textResponse : UpstreamResponse := { imageResponse with responseBody := asBytes "hi" }

def echoedRequest : ScriptRequest :=
  (buildScriptRequest scriptEnv "default" .request emptyRequest).2

def echoedResponse : ScriptResponse := buildScriptResponse scriptEnv imageResponse

end Sample

open Sample (echoedRequest echoedResponse echoedText emptyRequest imageResponse scriptEnv
  textRequest textResponse)

end AiProxy.Rules
