import AiProxy.Http.Proofs.HeaderProofs
import AiProxy.Http.Session
import AiProxy.Http.UpstreamHeaders
import AiProxy.Lib.Fallible

/-!
# From entries to header maps

Both ways from recorded entries to a header map add the well-formed entries one after the other: the
filter of the upstream request refuses a list with another entry, the other forms leave it out.
-/

namespace AiProxy.Http

open List

variable {m : HeaderMap} {entries : List ProxyHeaderEntry}

theorem headerNameFromBytes_eq_ok_iff {text : String} {name : HeaderName} :
    headerNameFromBytes text = .ok name ↔
      (text.toList ≠ [] ∧ text.toList.all isTokenChar ∧ text.toList.length ≤ 65535) ∧
        toAsciiLowercase text = name := by
  unfold headerNameFromBytes
  dsimp only
  split
  · next hvalid => exact ⟨fun h => ⟨hvalid, Except.ok.inj h⟩, fun h => congrArg _ h.2⟩
  · next hnot => exact ⟨fun h => (nomatch h), fun h => absurd h.1 hnot⟩

def parsedEntry (entry : ProxyHeaderEntry) : Option (HeaderName × HeaderValue) :=
  match headerNameFromBytes entry.name, headerValueFromStr entry.value with
  | .ok name, .ok value => some (name, value)
  | _, _ => none

theorem parsedEntry_eq_some_iff {entry : ProxyHeaderEntry} {name : HeaderName}
    {value : HeaderValue} :
    parsedEntry entry = some (name, value) ↔
      headerNameFromBytes entry.name = .ok name ∧ headerValueFromStr entry.value = .ok value := by
  unfold parsedEntry
  cases headerNameFromBytes entry.name with
  | error error => exact ⟨fun h => (nomatch h), fun h => (nomatch h.1)⟩
  | ok n =>
    cases headerValueFromStr entry.value with
    | error error => exact ⟨fun h => (nomatch h), fun h => (nomatch h.2)⟩
    | ok v => simp only [Option.some.injEq, Prod.mk.injEq, Except.ok.injEq]

theorem appendEntry_eq_ok_iff {m' : HeaderMap} {entry : ProxyHeaderEntry} :
    appendEntry m entry = .ok m' ↔
      ∃ header, parsedEntry entry = some header ∧ m' = m.append header.1 header.2 := by
  unfold appendEntry parsedEntry
  cases headerNameFromBytes entry.name with
  | error error => exact ⟨fun h => (nomatch h), fun ⟨_, h, _⟩ => (nomatch h)⟩
  | ok name =>
    cases headerValueFromStr entry.value with
    | error error => exact ⟨fun h => (nomatch h), fun ⟨_, h, _⟩ => (nomatch h)⟩
    | ok value =>
      constructor
      · intro h
        cases h
        exact ⟨_, rfl, rfl⟩
      · rintro ⟨header, hheader, rfl⟩
        cases hheader
        rfl

theorem foldlM_appendEntry_eq_ok_iff {m' : HeaderMap} : entries.foldlM appendEntry m = .ok m' ↔
      (∀ entry ∈ entries, (parsedEntry entry).isSome) ∧
        m' = m.appendAll (entries.filterMap parsedEntry) := by
  induction entries generalizing m with
  | nil =>
    constructor
    · intro h
      cases h
      exact ⟨fun _ h => (nomatch h), rfl⟩
    · rintro ⟨-, rfl⟩
      rfl
  | cons entry entries ih =>
    rw [foldlM_cons, Fallible.bind_ok_iff, forall_mem_cons]
    simp only [appendEntry_eq_ok_iff, ih]
    constructor
    · rintro ⟨_, ⟨header, hentry, rfl⟩, hall, hm⟩
      rw [filterMap_cons_some hentry, hentry]
      exact ⟨⟨rfl, hall⟩, hm⟩
    · rintro ⟨⟨hsome, hall⟩, hm⟩
      obtain ⟨header, hentry⟩ := Option.isSome_iff_exists.mp hsome
      rw [filterMap_cons_some hentry] at hm
      exact ⟨_, ⟨header, hentry, rfl⟩, hall, hm⟩

theorem buildUpstreamHeaders_eq_ok_iff : buildUpstreamHeadersFromEntries entries = .ok m ↔
      (∀ entry ∈ forwardedEntries entries, (parsedEntry entry).isSome) ∧
        m = HeaderMap.new.appendAll ((forwardedEntries entries).filterMap parsedEntry) :=
  foldlM_appendEntry_eq_ok_iff

theorem headerMapFromEntries_eq (entries : List ProxyHeaderEntry) :
    headerMapFromEntries entries = HeaderMap.new.appendAll (entries.filterMap parsedEntry) := by
  unfold headerMapFromEntries
  generalize HeaderMap.new = m
  induction entries generalizing m with
  | nil => rfl
  | cons entry entries ih =>
    rw [foldl_cons, ih, filterMap_cons]
    unfold parsedEntry
    cases headerNameFromBytes entry.name with
    | error e => rfl
    | ok name => cases headerValueFromStr entry.value <;> rfl

theorem wf_headerMapFromEntries (entries : List ProxyHeaderEntry) :
    (headerMapFromEntries entries).WF := by
  rw [headerMapFromEntries_eq]
  exact HeaderMap.wf_new.appendAll _

/-- A request that only names its host. -/
def Sample.arrived {Url : Type} (url : Url) : ParsedProxyRequest Url where
  body := []
  headers := []
  host := "example.com"
  method := "GET"
  path := "/"
  protocol := "http"
  queryParams := []
  rawRequest := "GET / HTTP/1.1\r\nHost: example.com\r\n\r\n"
  requestHeaders := [⟨"Host", "example.com", none⟩]
  requestId := "1"
  url := url

end AiProxy.Http
