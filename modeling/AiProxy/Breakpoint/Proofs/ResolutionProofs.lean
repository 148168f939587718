import AiProxy.Breakpoint.Resolution
import AiProxy.Http.Proofs.UpstreamHeadersProofs

/-!
# Request edits and the header filter

An edited header list goes into the header map entry by entry, so what is forwarded is what the header
filter would make of it only if the filter keeps every entry that is a header.
-/

namespace AiProxy.Breakpoint

open List Http

variable {header : HeaderName × HeaderValue}

theorem name_of_parsedEntry {entry : ProxyHeaderEntry}
    (h : parsedEntry entry = some header) : toAsciiLowercase entry.name = header.1 :=
  (headerNameFromBytes_eq_ok_iff.mp (parsedEntry_eq_some_iff.mp h).1).2

theorem filterMap_filter_name (q : HeaderName → Bool) (entries : List ProxyHeaderEntry) :
    (entries.filter fun entry => q (toAsciiLowercase entry.name)).filterMap parsedEntry
      = (entries.filterMap parsedEntry).filter fun header => q header.1 := by
  rw [filterMap_filter, filter_filterMap]
  refine filterMap_congr fun entry _ => ?_
  cases hentry : parsedEntry entry with
  | none => split <;> rfl
  | some header =>
    rw [name_of_parsedEntry hentry]
    cases hq : q header.1 with
    | true | false => simp [Option.filter, hq]

theorem getAll_headerMapFromEntries_filter (q : HeaderName → Bool)
    (entries : List ProxyHeaderEntry) (name : HeaderName) :
    (headerMapFromEntries (entries.filter fun entry => q (toAsciiLowercase entry.name))).getAll name
      = if q name then (headerMapFromEntries entries).getAll name else [] := by
  rw [headerMapFromEntries_eq, headerMapFromEntries_eq, filterMap_filter_name,
    HeaderMap.getAll_appendAll_filter]

def describesBody : List HeaderName :=
  ["content-encoding", "content-md5", "digest", "etag",
    "content-length"]

theorem stripBodyEntries_eq (entries : List ProxyHeaderEntry) : stripBodyEntries entries
      = entries.filter fun entry => decide (toAsciiLowercase entry.name ∉ describesBody) := by
  unfold stripBodyEntries stripPlainBodyEditHeaderEntries
  rw [filter_filter]
  refine filter_congr fun entry _ => ?_
  have hlower : ∀ text ∈ ["content-encoding", "content-md5", "digest", "etag", "content-length"],
      toAsciiLowercase text = text.toList := by decide
  simp only [forall_mem_cons, not_mem_nil, false_implies, implies_true, and_true]
    at hlower
  obtain ⟨h1, h2, h3, h4, h5⟩ := hlower
  unfold eqIgnoreAsciiCase describesBody
  rw [Bool.eq_iff_iff]
  simp only [mem_cons, not_mem_nil, or_false, not_or, Bool.and_eq_true,
    Bool.not_eq_true', decide_eq_false_iff_not, decide_eq_true_eq]
  constructor
  · rintro ⟨hlength, ⟨⟨hencoding, hmd5⟩, hdigest⟩, hetag⟩
    exact ⟨hencoding, hmd5, hdigest, hetag, hlength⟩
  · rintro ⟨hencoding, hmd5, hdigest, hetag, hlength⟩
    exact ⟨hlength, ⟨⟨hencoding, hmd5⟩, hdigest⟩, hetag⟩

theorem getAll_stripBody {m : HeaderMap} (h : m.WF) (name : HeaderName) :
    ((stripPlainBodyEditHeaders m).remove "content-length").getAll name
      = if decide (name ∉ describesBody) then m.getAll name else [] := by
  refine (HeaderMap.getAll_removeAll h describesBody name).trans ?_
  by_cases hname : name ∈ describesBody
  · rw [if_pos hname, if_neg (by simpa using hname)]
  · rw [if_neg hname, if_pos (by simpa using hname)]

section Edited

variable {Url : Type} [UrlHostOps Url]
variable {resolution : RequestResolution} {headers : List ProxyHeaderEntry}

theorem applyHostHeader_keeps (request : ParsedProxyRequest Url) (headers : HeaderMap) :
    (applyHostHeaderToRequest request headers).requestHeaders = request.requestHeaders := by
  unfold applyHostHeaderToRequest
  split
  · rfl
  · split
    · rfl
    · split
      · split <;> rfl
      · rfl

section

variable (h : resolution.modifiedRequestHeaders = some headers) (request : ParsedProxyRequest Url)

include h request

theorem requestHeaders_resolution : (applyRequestResolution resolution request).requestHeaders
      = recordedEntries resolution headers := by
  unfold applyRequestResolution recordedEntries
  rw [h]
  cases resolution.modifiedRequestBodyBase64 with
  | none => exact applyHostHeader_keeps _ _
  | some body => exact congrArg stripBodyEntries (applyHostHeader_keeps _ _)

theorem getAll_resolution (name : HeaderName) :
    (applyRequestResolution resolution request).headers.getAll name
      = (headerMapFromEntries (recordedEntries resolution headers)).getAll name := by
  unfold applyRequestResolution recordedEntries
  rw [h]
  cases resolution.modifiedRequestBodyBase64 with
  | none => rfl
  | some body =>
    show ((stripPlainBodyEditHeaders (headerMapFromEntries headers)).remove _).getAll name = _
    rw [getAll_stripBody (wf_headerMapFromEntries headers)]
    dsimp only
    rw [stripBodyEntries_eq]
    exact (getAll_headerMapFromEntries_filter (fun n => decide (n ∉ describesBody)) headers name).symm

theorem wf_resolution : (applyRequestResolution resolution request).headers.WF := by
  have hwf := wf_headerMapFromEntries headers
  unfold applyRequestResolution
  rw [h]
  cases resolution.modifiedRequestBodyBase64 with
  | none => exact hwf
  | some body => exact hwf.removeAll describesBody

end

end Edited

/-! ## The filter -/

theorem isHeader_iff (entry : ProxyHeaderEntry) : IsHeader entry ↔ (parsedEntry entry).isSome := by
  rw [Option.isSome_iff_exists]
  constructor
  · rintro ⟨⟨name, hname⟩, value, hvalue⟩
    exact ⟨(name, value), parsedEntry_eq_some_iff.mpr ⟨hname, hvalue⟩⟩
  · rintro ⟨⟨name, value⟩, hparsed⟩
    obtain ⟨hname, hvalue⟩ := parsedEntry_eq_some_iff.mp hparsed
    exact ⟨⟨name, hname⟩, value, hvalue⟩

theorem toLower_eq_colon_iff (c : Char) : c.toLower = ':' ↔ c = ':' := by
  have hlow := Utf8.toNat_toLower c
  rw [← Char.toNat_inj, ← Char.toNat_inj, hlow]
  have hcolon : ':'.toNat = 58 := rfl
  split <;> omega

theorem isPseudo_congr {a b : String} (h : toAsciiLowercase a = toAsciiLowercase b) :
    isPseudoHeaderName a = isPseudoHeaderName b := by
  have hlower : ∀ s : String,
      (toAsciiLowercase s).head? = some ':' ↔ s.toList.head? = some ':' := by
    intro s
    unfold toAsciiLowercase
    rw [head?_map]
    cases s.toList.head? with
    | none => exact Iff.rfl
    | some c => simp only [Option.map_some, Option.some.injEq, toLower_eq_colon_iff]
  unfold isPseudoHeaderName
  rw [decide_eq_decide, ← hlower a, ← hlower b, h]

theorem skipsEntry_congr {a b : String} (h : toAsciiLowercase a = toAsciiLowercase b)
    (isWsUpgrade : Bool) (strip : List (List Char)) :
    skipsEntry isWsUpgrade strip a = skipsEntry isWsUpgrade strip b := by
  have heq : ∀ text, eqIgnoreAsciiCase a text = eqIgnoreAsciiCase b text := by
    intro text
    unfold eqIgnoreAsciiCase
    rw [h]
  unfold skipsEntry shouldSkipRequestHeader isHopByHopOnly shouldStripHopByHop
    isStandardHopByHopHeader
  simp only [heq, h, isPseudo_congr h]

theorem host_skipped {name : String} (h : eqIgnoreAsciiCase name "host" = true)
    (isWsUpgrade : Bool) (strip : List (List Char)) :
    skipsEntry isWsUpgrade strip name = true := by
  unfold skipsEntry shouldSkipRequestHeader isHopByHopOnly
  cases isWsUpgrade <;> simp only [h, Bool.true_or, Bool.not_false, Bool.not_true, Bool.true_and,
    Bool.and_false, Bool.false_or]

theorem eq_host_iff {entry : ProxyHeaderEntry} (h : parsedEntry entry = some header) :
    eqIgnoreAsciiCase entry.name "host" = true ↔ header.1 = "host" := by
  have hlower : toAsciiLowercase "host" = "host" := by decide
  unfold eqIgnoreAsciiCase
  rw [decide_eq_true_eq, name_of_parsedEntry h, hlower]

theorem filterMap_forwardedEntries {entries : List ProxyHeaderEntry}
    (h : FilterKeepsHeaders entries) :
    (forwardedEntries entries).filterMap parsedEntry
      = (entries.filterMap parsedEntry).filter fun header => header.1 ≠ "host".toList := by
  unfold forwardedEntries
  rw [filterMap_filter, filter_filterMap]
  refine filterMap_congr fun entry hentry => ?_
  cases hparsed : parsedEntry entry with
  | none => split <;> rfl
  | some header =>
    cases hhost : eqIgnoreAsciiCase entry.name "host" with
    | true =>
      have hname := (eq_host_iff hparsed).mp hhost
      have hdrop : decide (header.1 ≠ "host".toList) = false := decide_eq_false fun hne => hne hname
      rw [host_skipped hhost, Option.filter_some, hdrop]
      rfl
    | false =>
      have hname : header.1 ≠ "host".toList := by
        intro hname
        rw [(eq_host_iff hparsed).mpr hname] at hhost
        cases hhost
      have hkept := (h entry hentry hhost).mpr
        ((isHeader_iff entry).mpr (by rw [hparsed]; rfl))
      rw [hkept, Option.filter_some, if_pos (decide_eq_true hname)]
      rfl

section Main

variable {Url : Type} {request : ParsedProxyRequest Url} (hwf : request.headers.WF)
  (hmap : ∀ name, request.headers.getAll name
    = (headerMapFromEntries request.requestHeaders).getAll name)

include hwf

theorem getAll_takenHeaders (name : HeaderName) : (takenHeaders request).getAll name
      = if decide (name ≠ "host") then request.headers.getAll name else [] := by
  unfold takenHeaders
  rw [HeaderMap.appendAll_filter hwf fun name => decide (name ≠ "host"),
    HeaderMap.getAll_keep]

include hmap

/-- The edited entries are forwarded as the filter would forward them exactly if the filter keeps
every header of the list. -/
theorem forwardsFiltered_iff_keeps :
    ForwardsFiltered request ↔ FilterKeepsHeaders request.requestHeaders := by
  have htaken : ∀ name, (takenHeaders request).getAll name
      = (HeaderMap.new.appendAll ((request.requestHeaders.filterMap parsedEntry).filter
          fun header => header.1 ≠ "host".toList)).getAll name := by
    intro name
    rw [getAll_takenHeaders hwf, hmap, headerMapFromEntries_eq]
    exact (HeaderMap.getAll_appendAll_filter _ (fun n => decide (n ≠ "host".toList)) name).symm
  unfold ForwardsFiltered
  simp only [buildUpstreamHeaders_eq_ok_iff, htaken]
  constructor
  · rintro ⟨headers, ⟨hall, rfl⟩, hsame⟩ entry hentry hhost
    rw [isHeader_iff]
    constructor
    · intro hkept
      refine hall entry (mem_filter.mpr ⟨hentry, ?_⟩)
      rw [hkept]
      rfl
    · intro hsome
      -- the name of a header that is taken is the name of one that the filter keeps
      obtain ⟨header, hparsed⟩ := Option.isSome_iff_exists.mp hsome
      have hname : header.1 ≠ "host".toList := by
        intro hname
        rw [(eq_host_iff hparsed).mpr hname] at hhost
        cases hhost
      have hmem : header ∈ (request.requestHeaders.filterMap parsedEntry).filter
          fun header => header.1 ≠ "host".toList :=
        mem_filter.mpr ⟨mem_filterMap.mpr ⟨entry, hentry, hparsed⟩, decide_eq_true hname⟩
      have hne := HeaderMap.getAll_ne_nil_of_mem_appendAll (m := .new) hmem
      rw [hsame, HeaderMap.getAll_appendAll] at hne
      obtain ⟨value, hvalue⟩ := exists_mem_of_ne_nil _ hne
      rcases mem_append.mp hvalue with hvalue | hvalue
      · cases hvalue
      · obtain ⟨other, hother, -⟩ := mem_map.mp hvalue
        obtain ⟨hother, heq⟩ := mem_filter.mp hother
        obtain ⟨entry', hentry', hparsed'⟩ := mem_filterMap.mp hother
        have hsamename : toAsciiLowercase entry.name = toAsciiLowercase entry'.name := by
          rw [name_of_parsedEntry hparsed, name_of_parsedEntry hparsed']
          exact (of_decide_eq_true heq).symm
        rw [skipsEntry_congr hsamename]
        simpa using (mem_filter.mp hentry').2
  · intro hkeeps
    refine ⟨_, ⟨fun entry hentry => ?_, rfl⟩, fun name => ?_⟩
    · obtain ⟨hmem, hkept⟩ := mem_filter.mp hentry
      have hnot : skipsEntry (isWsUpgradeEntries request.requestHeaders)
          (stripSetOfEntries request.requestHeaders) entry.name = false := by simpa using hkept
      have hhost : eqIgnoreAsciiCase entry.name "host" = false := by
        by_contra hhost
        rw [host_skipped (by simpa using hhost)] at hnot
        cases hnot
      exact (isHeader_iff entry).mp ((hkeeps entry hmem hhost).mp hnot)
    · rw [filterMap_forwardedEntries hkeeps]

end Main

theorem noConnectionHeader_of_forwardsFiltered {Url : Type} {request : ParsedProxyRequest Url}
    (h : ForwardsFiltered request)
    (hws : isWsUpgradeEntries request.requestHeaders = false) : NoConnectionHeader request := by
  obtain ⟨headers, hok, hsame⟩ := h
  obtain ⟨-, rfl⟩ := buildUpstreamHeaders_eq_ok_iff.mp hok
  intro name hname
  rw [hsame, HeaderMap.getAll_appendAll]
  have hnone : ((forwardedEntries request.requestHeaders).filterMap parsedEntry).filter
      (fun header => header.1 = name) = [] := by
    rw [filter_eq_nil_iff]
    intro header hheader heq
    obtain ⟨entry, hentry, hparsed⟩ := mem_filterMap.mp hheader
    have hkept := (mem_filter.mp hentry).2
    have hlower : toAsciiLowercase entry.name = name :=
      (name_of_parsedEntry hparsed).trans (of_decide_eq_true heq)
    have hstrip : shouldStripHopByHop entry.name (stripSetOfEntries request.requestHeaders) false
        = true := by
      unfold shouldStripHopByHop
      rw [hlower, contains_iff_mem.mpr hname]
      exact Bool.or_true _
    unfold skipsEntry at hkept
    rw [hws, hstrip] at hkept
    simp at hkept
  rw [hnone]
  rfl

/-- A resolution that replaces the header list forwards what the filter makes of the recorded entries
exactly if the filter keeps every header of that list; then nothing of the connection is forwarded,
unless the list is an upgrade. -/
theorem edited_headers_filtered_iff {Url : Type} [UrlHostOps Url] (resolution : RequestResolution)
    (headers : List ProxyHeaderEntry) (request : ParsedProxyRequest Url)
    (h : resolution.modifiedRequestHeaders = some headers) :
    (ForwardsFiltered (applyRequestResolution resolution request) ↔
      FilterKeepsHeaders (recordedEntries resolution headers)) ∧
    (FilterKeepsHeaders (recordedEntries resolution headers) →
      isWsUpgradeEntries (recordedEntries resolution headers) = false →
      NoConnectionHeader (applyRequestResolution resolution request)) := by
  have hentries := requestHeaders_resolution h request
  have hiff : ForwardsFiltered (applyRequestResolution resolution request) ↔
      FilterKeepsHeaders (recordedEntries resolution headers) := by
    rw [← hentries]
    refine forwardsFiltered_iff_keeps (wf_resolution h request) fun name => ?_
    rw [hentries]
    exact getAll_resolution h request name
  refine ⟨hiff, fun hkeeps hws => ?_⟩
  rw [← hentries] at hws
  exact noConnectionHeader_of_forwardsFiltered (hiff.mpr hkeeps) hws

namespace Sample

/-- URLs that are only a host and a port. -/
structure HostPort where
  host : String
  port : Option Nat

instance : UrlHostOps HostPort where
  parse := fun s => .ok ⟨s, none⟩
  asStr := fun url => "http://" ++ url.host ++ "/"
  scheme := fun _ => "http"
  hostStr := fun url => some url.host
  port := fun url => url.port
  path := fun _ => "/"
  query := fun _ => none
  queryPairs := fun _ => []
  setPath := fun url _ => url
  setQuery := fun url _ => url
  appendPairs := fun url _ => url
  setHost := fun url host => some { url with host := host }
  setPort := fun url port => some { url with port := port }

def request : ParsedProxyRequest HostPort := Http.Sample.arrived ⟨"example.com", none⟩

def editHeaders (headers : List ProxyHeaderEntry) : RequestResolution where
  action := .forward
  mock := none
  modifiedResponseStatusCode := none
  modifiedResponseHeaders := none
  modifiedResponseBodyBase64 := none
  modifiedRequestHeaders := some headers
  modifiedRequestQueryParams := none
  modifiedRequestBodyBase64 := none

def plainHeaders : List ProxyHeaderEntry :=
  [⟨"Host", "example.com:8080", none⟩, ⟨"Accept", "*/*", none⟩]

def connectionHeaders : List ProxyHeaderEntry :=
  [⟨"Host", "example.com", none⟩, ⟨"Proxy-Authorization", "Basic eA==", none⟩,
    ⟨"Connection", "X-Secret", none⟩, ⟨"X-Secret", "1", none⟩]

end Sample

open Sample (connectionHeaders editHeaders plainHeaders request)

theorem edited_plain_headers_filtered :
    ForwardsFiltered (applyRequestResolution (editHeaders plainHeaders)
      request) := by
  refine (edited_headers_filtered_iff (editHeaders plainHeaders) plainHeaders
    request rfl).1.mpr ?_
  show FilterKeepsHeaders plainHeaders
  intro entry hentry hhost
  rcases mem_cons.mp hentry with rfl | hentry
  · exact absurd hhost (by decide)
  · obtain rfl := mem_singleton.mp hentry
    exact ⟨fun _ => ⟨⟨"accept", by decide⟩, asBytes "*/*", by decide⟩,
      fun _ => by decide⟩

/-- `Proxy-Authorization`, `Connection` and what it lists are forwarded when a header list with them
is saved at a breakpoint. -/
theorem edited_connection_headers_forwarded :
    takenHeaders (applyRequestResolution (editHeaders connectionHeaders)
        request)
      = [("proxy-authorization".toList, [asBytes "Basic eA=="]),
          ("connection", [asBytes "X-Secret"]), ("x-secret", [asBytes "1"])] ∧
      buildUpstreamHeadersFromEntries connectionHeaders = .ok [] ∧
      ¬ ForwardsFiltered (applyRequestResolution (editHeaders connectionHeaders)
        request) := by
  have hbuilt : buildUpstreamHeadersFromEntries connectionHeaders = .ok [] := by
    decide
  refine ⟨by decide, hbuilt, ?_⟩
  rintro ⟨headers, hok, hsame⟩
  have hempty : headers = [] := Except.ok.inj (hok.symm.trans hbuilt)
  have hvalue := hsame "x-secret"
  rw [hempty] at hvalue
  revert hvalue
  decide

end AiProxy.Breakpoint
