import AiProxy.Rules.Map
import AiProxy.Rules.Proofs.RewriteProofs

/-!
# The rollback of a failed remote rule

However a remote rule fails, the request is rebuilt from its own entries and URL afterwards.
-/

namespace AiProxy.Rules

open Http (ParsedProxyRequest ProxyHeaderEntry UpstreamResponse UrlOps
  buildUpstreamHeadersFromEntries)

variable {Url : Type} [UrlOps Url] {request : ParsedProxyRequest Url} {rule : MapRule}

theorem rebuild_eq_self_iff : (rebuildRequestRuntimeState request).1 = request ↔ Settled request := by
  rcases request with ⟨body, headers, host, method, path, protocol, params, raw, entries, id, url⟩
  unfold rebuildRequestRuntimeState Settled
  cases buildUpstreamHeadersFromEntries entries with
  | error error => exact iff_of_true rfl fun _ h => nomatch h
  | ok built =>
    cases hhost : UrlOps.hostStr url with
    | none => simp [hhost, eq_comm]
    | some name =>
      simp only [hhost, ParsedProxyRequest.mk.injEq, true_and, and_true]
      constructor
      · rintro ⟨rfl, rfl, rfl, rfl, rfl, hraw, hentries⟩ _ ⟨⟩
        refine ⟨rfl, fun _ hname => ⟨Option.some.inj hname, rfl, rfl, rfl, hentries.symm, ?_⟩⟩
        rw [hentries] at hraw
        exact hraw.symm
      · intro h
        obtain ⟨rfl, hrest⟩ := h built rfl
        obtain ⟨rfl, rfl, rfl, rfl, hentries, hraw⟩ := hrest name rfl
        exact ⟨rfl, rfl, rfl, rfl, rfl, by rw [← hentries]; exact hraw.symm, hentries.symm⟩

theorem rebuild_with_headers (request : ParsedProxyRequest Url) {headers : Http.HeaderMap}
    (h : buildUpstreamHeadersFromEntries request.requestHeaders = .ok headers) :
    rebuildRequestRuntimeState { request with headers := headers } =
      rebuildRequestRuntimeState request := by
  simp only [rebuildRequestRuntimeState, h]

theorem applyRemote_failed {error : String} (h : (applyRemoteMapRule request rule).2 = .error error) :
    applyRemote request rule = ((rebuildRequestRuntimeState request).1, .error error) := by
  have hback : (rebuildRequestRuntimeState
      { (applyRemoteMapRule request rule).1 with url := request.url }).1 =
        (rebuildRequestRuntimeState request).1 := by
    unfold applyRemoteMapRule at h ⊢
    cases hparse : (UrlOps.parse rule.targetValue : Except String Url) with
    | error _ => rfl
    | ok target =>
      simp only [hparse] at h ⊢
      generalize (if rule.preserveQuery then _ else _ : Url) = mapped at h ⊢
      rcases hrun : rebuildRequestRuntimeState { request with url := mapped } with ⟨left, result⟩
      rw [hrun] at h
      by_cases hr : Rebuildable { request with url := mapped }
      · have hok := rebuild_of_rebuildable hr
        rw [hrun] at hok
        cases hok
        cases h
      · -- either nothing was assigned, or the header map that the next rebuild assigns again
        have hfailed := rebuild_of_not_rebuildable hr
        rw [hrun] at hfailed
        obtain ⟨failure, rfl, ⟨rfl, -⟩ | ⟨headers, hheaders, rfl⟩⟩ := hfailed
        · rfl
        · exact congrArg Prod.fst (rebuild_with_headers request hheaders)
  unfold applyRemote
  rcases hrun : applyRemoteMapRule request rule with ⟨left, result⟩
  rw [hrun] at h hback
  cases h
  exact congrArg (·, _) hback

/-- A request is left by a remote rule that fails as it arrived exactly when it is settled. -/
theorem failed_remote_rule_unchanged_iff
    (applyLocal : ParsedProxyRequest Url → MapRule → Except String (UpstreamResponse × String))
    (request : ParsedProxyRequest Url) (rule : MapRule) (error : String)
    (hremote : rule.mode = "remote") (hfails : (applyRemoteMapRule request rule).2 = .error error) :
    (applyMapRules applyLocal (some rule) request).1 = request ↔ Settled request := by
  have hlocal : ¬ rule.mode = "local" := by
    rw [hremote]
    decide
  have happly : (applyMapRules applyLocal (some rule) request).1 =
      (rebuildRequestRuntimeState request).1 := by
    simp only [applyMapRules, if_neg hlocal, if_pos hremote, applyRemote_failed hfails]
  rw [happly, rebuild_eq_self_iff]

namespace Sample

def remoteRule : MapRule :=
  ⟨"m1", true, "remote", "staging", none, true, true, 0, "*", "/staging", none, "w"⟩

def noFile (_ : ParsedProxyRequest HostUrl) (_ : MapRule) :
    Except String (UpstreamResponse × String) := .error "no file"

def hostFirst : ParsedProxyRequest HostUrl :=
  { Sample.request with
    headers := [("accept", [[98]])]
    rawRequest := "GET / HTTP/1.1\r\nHost: example.com\r\nAccept: b\r\n\r\n"
    requestHeaders := Sample.request.requestHeaders ++ [⟨"Accept", "b", none⟩] }

theorem settled_request : Settled Sample.request := by
  rw [← rebuild_eq_self_iff]
  decide

end Sample

theorem failed_remote_rule_unchanged_host_last :
    (applyMapRules Sample.noFile (some Sample.remoteRule) Sample.request).1 = Sample.request :=
  (failed_remote_rule_unchanged_iff Sample.noFile Sample.request Sample.remoteRule _ rfl rfl).mpr
    Sample.settled_request

/-- The rule fails before it has changed anything, and the host header is moved to the end. -/
theorem failed_remote_rule_moves_host :
    (∃ error, (applyRemoteMapRule Sample.hostFirst Sample.remoteRule).2 = .error error) ∧
      (applyMapRules Sample.noFile (some Sample.remoteRule) Sample.hostFirst).1.requestHeaders =
        [⟨"Accept", "b", none⟩, ⟨"Host", "example.com", none⟩] := by
  exact ⟨⟨_, rfl⟩, by decide⟩

end AiProxy.Rules
