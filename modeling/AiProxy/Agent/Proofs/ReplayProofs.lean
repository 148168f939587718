import AiProxy.Agent.Replay
import AiProxy.Http.Proofs.HyperHeadersProofs

/-!
# Replay of a captured request: proofs

A replay without overrides sends the recorded headers and the stored body.
-/

namespace AiProxy.Agent

open List Http Fallible

variable {m : HeaderMap} {headers : List ProxyHeaderEntry}

def sentEntries (headers : List ProxyHeaderEntry) : List ProxyHeaderEntry :=
  headers.filter fun header => !(isPseudoHeaderName header.name || shouldSkipRequestHeader header.name)

theorem appendDirectHeader_of_skipped {header : ProxyHeaderEntry}
    (h : (isPseudoHeaderName header.name || shouldSkipRequestHeader header.name) = true) :
    appendDirectHeader m header = .ok m := by
  rw [appendDirectHeader, if_pos (Bool.or_eq_true .. ▸ h)]

theorem appendDirectHeader_ok_iff {m' : HeaderMap} {header : ProxyHeaderEntry}
    (h : (isPseudoHeaderName header.name || shouldSkipRequestHeader header.name) = false) :
    appendDirectHeader m header = .ok m' ↔ appendEntry m header = .ok m' := by
  have hneg : ¬ (isPseudoHeaderName header.name = true ∨
    shouldSkipRequestHeader header.name = true) := by
    rw [← Bool.or_eq_true, h]
    exact Bool.false_ne_true
  rw [appendDirectHeader, if_neg hneg, appendEntry]
  cases headerNameFromBytes header.name with
  | error error => exact iff_of_false (by rintro ⟨⟩) (by rintro ⟨⟩)
  | ok name =>
    cases headerValueFromStr header.value with
    | error error => exact iff_of_false (by rintro ⟨⟩) (by rintro ⟨⟩)
    | ok value => exact Iff.rfl

theorem foldlM_appendDirectHeader {m' : HeaderMap}
    (h : headers.foldlM appendDirectHeader m = .ok m') :
    (sentEntries headers).foldlM appendEntry m = .ok m' := by
  induction headers generalizing m with
  | nil => exact h
  | cons header headers ih =>
    rw [foldlM_cons, bind_ok_iff] at h
    obtain ⟨next, hnext, hrest⟩ := h
    cases hskip : isPseudoHeaderName header.name || shouldSkipRequestHeader header.name with
    | true =>
      rw [appendDirectHeader_of_skipped hskip] at hnext
      cases hnext
      rw [sentEntries, filter_cons_of_neg (by simp [hskip])]
      exact ih hrest
    | false =>
      rw [sentEntries, filter_cons_of_pos (by simp [hskip]), foldlM_cons, bind_ok_iff]
      exact ⟨next, (appendDirectHeader_ok_iff hskip).mp hnext, ih hrest⟩

theorem fromUTF8?_of_headerValue {value : String} {bytes : HeaderValue}
    (h : headerValueFromStr value = .ok bytes) :
    String.fromUTF8? ⟨bytes.toArray⟩ = some value := by
  rw [headerValueFromStr] at h
  split at h
  · cases h
    exact Utf8.fromUTF8?_bytes value
  · cases h

theorem name_eq_iff_of_fromBytes {name : String} {lower : HeaderName}
    (h : headerNameFromBytes name = .ok lower) :
    lower = "content-encoding" ↔ eqIgnoreAsciiCase name "content-encoding" = true := by
  obtain ⟨-, rfl⟩ := Http.headerNameFromBytes_eq_ok_iff.mp h
  rw [eqIgnoreAsciiCase, decide_eq_true_iff]
  exact Iff.rfl

theorem encodings_appendAll (entries : List ProxyHeaderEntry)
    (h : ∀ entry ∈ entries, (parsedEntry entry).isSome) :
    (HeaderMap.new.appendAll (entries.filterMap parsedEntry)).encodings =
      recordedEncodings entries := by
  rw [HeaderMap.encodings, HeaderMap.getAll_appendAll]
  show List.flatMap _ ([] ++ _) = _
  rw [nil_append]
  induction entries with
  | nil => rfl
  | cons entry entries ih =>
    obtain ⟨hentry, hrest⟩ := forall_mem_cons.mp h
    obtain ⟨⟨name, value⟩, hparsed⟩ := Option.isSome_iff_exists.mp hentry
    obtain ⟨hname, hvalue⟩ := parsedEntry_eq_some_iff.mp hparsed
    have hiff := name_eq_iff_of_fromBytes hname
    rw [filterMap_cons_some hparsed, recordedEncodings]
    by_cases hce : name = "content-encoding"
    · rw [filter_cons, if_pos (decide_eq_true hce), filter_cons, if_pos (hiff.mp hce),
        map_cons, flatMap_cons, ih hrest, fromUTF8?_of_headerValue hvalue]
      rfl
    · rw [filter_cons, if_neg (fun h => hce (of_decide_eq_true h)), filter_cons,
        if_neg (fun hce' => hce (hiff.mpr hce')), ih hrest]
      rfl

theorem not_skipped_of_contentEncoding {name : String}
    (h : eqIgnoreAsciiCase name "content-encoding" = true) :
    (isPseudoHeaderName name || shouldSkipRequestHeader name) = false := by
  have hlower : toAsciiLowercase name = "content-encoding" := of_decide_eq_true h
  rw [Bool.or_eq_false_iff]
  constructor
  · rw [Bool.eq_false_iff]
    intro hpseudo
    rw [eqIgnoreAsciiCase_of_pseudo hpseudo (by decide)] at h
    cases h
  · rw [shouldSkipRequestHeader]
    simp only [eqIgnoreAsciiCase, hlower]
    decide

theorem recordedEncodings_sentEntries (headers : List ProxyHeaderEntry) :
    recordedEncodings (sentEntries headers) = recordedEncodings headers := by
  rw [recordedEncodings, sentEntries, filter_filter]
  congr 1
  refine filter_congr fun header _ => ?_
  cases hce : eqIgnoreAsciiCase header.name "content-encoding" with
  | false => rfl
  | true => rw [not_skipped_of_contentEncoding hce]; rfl

theorem encodings_of_foldlM (h : headers.foldlM appendDirectHeader .new = .ok m) : m.encodings =
    recordedEncodings headers := by
  obtain ⟨hparsed, rfl⟩ := foldlM_appendEntry_eq_ok_iff.mp (foldlM_appendDirectHeader h)
  rw [encodings_appendAll _ hparsed, recordedEncodings_sentEntries]

section Replay

variable {Url N : Type} [UrlOps Url] {bodies : JsonBodies N} {detail : CapturedRequest}

theorem orRefuse_ok {α : Type} {result : Except String α} {describe : String → String} {a : α}
    (h : orRefuse result describe = .ok a) : result = .ok a := by
  cases result with
  | ok b =>
    cases h
    rfl
  | error error => cases h

theorem originalUrl_ok {url : Url} {host : String} (h : originalUrl detail = .ok (url, host)) :
    UrlOps.parse detail.url = .ok url := by
  rw [originalUrl, bind_ok_iff] at h
  obtain ⟨-, -, h⟩ := h
  rw [bind_ok_iff] at h
  obtain ⟨parsed, hparse, h⟩ := h
  rw [bind_ok_iff] at h
  obtain ⟨-, -, h⟩ := h
  split at h
  · cases h
    exact orRefuse_ok hparse
  · cases h

theorem replayBody_ok {body : Option (List UInt8)} (h : replayBody detail none = .ok body) :
    body = detail.requestBody.map ProxyBodyReference.bytes := by
  unfold replayBody at h
  split at h
  · next hsome => cases hsome
  · next stored _ hbody =>
    split at h
    · cases h
    · cases h
      rw [hbody]
      rfl
  · next hbody =>
    cases h
    rw [hbody]
    rfl

/-- Without overrides a replay has the captured method in upper case, the captured URL and headers, and
the stored body. -/
theorem prepareReplay_plain {prepared : PreparedReplay}
    (h : prepareReplay Url bodies detail {} = .ok prepared) :
    ∃ url : Url, UrlOps.parse detail.url = .ok url ∧
      prepared = ⟨toAsciiUppercase detail.method, UrlOps.asStr url, detail.requestHeaders,
        detail.requestBody.map ProxyBodyReference.bytes⟩ := by
  rw [prepareReplay, bind_ok_iff] at h
  obtain ⟨⟨url, host⟩, hurl, h⟩ := h
  refine ⟨url, originalUrl_ok hurl, ?_⟩
  -- with empty lists of overrides the header and query steps do nothing
  simp only [bind_ok_iff] at h
  obtain ⟨-, -, -, -, headers, hremove, headers', hset, url', hquery, -, -, body, hbody, pair,
    hjson, h⟩ := h
  cases hremove
  cases hset
  cases hquery
  cases hjson
  cases h
  rw [replayBody_ok hbody]
  rfl

theorem directRequest_ok {method url : String} {body : Option (List UInt8)}
    {sent : DirectRequest Url} (h : directRequest method url headers body = .ok sent) :
    sent.method = method ∧ UrlOps.parse url = .ok sent.url ∧
      sent.headers.encodings = recordedEncodings headers ∧ sent.body = body.getD [] := by
  simp only [directRequest, bind_ok_iff] at h
  obtain ⟨requestMethod, hmethod, requestUrl, hurl, -, -, headerMap, hheaders, h⟩ := h
  cases h
  refine ⟨?_, ?_, encodings_of_foldlM hheaders, ?_⟩
  · rw [Rules.methodFromBytes] at hmethod
    split at hmethod
    · cases hmethod
      rfl
    · cases hmethod
  · cases hparse : (UrlOps.parse url : Except String Url) with
    | ok parsed =>
      rw [hparse] at hurl
      cases hurl
      rfl
    | error error =>
      rw [hparse] at hurl
      cases hurl
  · cases body with
    | none => rfl
    | some bytes =>
      by_cases hnil : bytes = []
      · subst hnil
        rfl
      · simp [Option.filter, hnil]

theorem storedBody_eq (decoders : Decoders) (request : ParsedProxyRequest Url) (statusCode : Nat) :
    ((captureRequest decoders request statusCode).requestBody.map ProxyBodyReference.bytes).getD []
      = if request.body = [] then [] else (capturedDecoding decoders request).getD request.body := by
  rw [captureRequest, buildBodyReference]
  split <;> rfl

end Replay

namespace Sample

structure ApiUrl where
  text : String

instance : UrlOps ApiUrl where
  parse := fun s => .ok ⟨s⟩
  asStr := ApiUrl.text
  scheme := fun _ => "https"
  hostStr := fun _ => some "api.example.com"
  port := fun _ => none
  path := fun _ => "/"
  query := fun _ => none
  queryPairs := fun _ => []
  setPath := fun url _ => url
  setQuery := fun url _ => url
  appendPairs := fun url _ => url

/-- A gzip stream is a first byte and the content. -/
def decoders : Decoders where
  gzip := fun bytes => match bytes with
    | 0x1f :: content => some content
    | _ => none
  zlib := fun _ => none
  rawDeflate := fun _ => none
  brotli := fun _ => none
  other := fun _ _ => none

def bodies : JsonBodies Unit where
  fromSlice := fun _ => .error "no JSON"
  toVec := fun _ => .error "no JSON"

def request (headers : HeaderMap) (entries : List ProxyHeaderEntry) : ParsedProxyRequest ApiUrl where
  body := [0x1f, 0x68, 0x69]
  headers := headers
  host := "api.example.com"
  method := "POST"
  path := "/upload"
  protocol := "https"
  queryParams := []
  rawRequest := ""
  requestHeaders := entries
  requestId := "1"
  url := ⟨"https://api.example.com/upload"⟩

def compressed : ParsedProxyRequest ApiUrl :=
  request [("content-encoding", [asBytes "gzip"])] [⟨"Content-Encoding", "gzip", none⟩]

end Sample

open Sample (ApiUrl bodies compressed decoders)

end AiProxy.Agent
