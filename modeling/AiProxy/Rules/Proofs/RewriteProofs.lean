import AiProxy.Http.Proofs.UpstreamHeadersProofs
import AiProxy.Rules.RewriteContract

/-!
# Failed rewrite rules

An action that does not succeed leaves the request alone.
-/

namespace AiProxy.Rules

open List
open Http (ParsedProxyRequest ProxyHeaderEntry UrlOps asBytes isTokenChar isValueByte headerValueFromStr
  forwardedEntries setHeaderEntry buildUpstreamHeadersFromEntries parsedEntry
  parsedEntry_eq_some_iff buildUpstreamHeaders_eq_ok_iff)
open Json (Value)

/-! ## Actions -/

section Entries

variable {entries : List ProxyHeaderEntry} {name value : String}

theorem soundEntry_of_value
    (hname : name.toList ≠ [] ∧ name.toList.all isTokenChar ∧ name.toList.length ≤ 65535)
    (hvalue : ∃ bytes, headerValueFromStr value = .ok bytes) : SoundEntry ⟨name, value, none⟩ :=
  .inr ⟨⟨_, if_pos hname⟩, hvalue⟩

theorem sound_filter {keep : ProxyHeaderEntry → Bool} (h : ∀ entry ∈ entries, SoundEntry entry) :
    ∀ entry ∈ entries.filter keep, SoundEntry entry :=
  fun entry hentry => h entry (mem_of_mem_filter hentry)

theorem sound_setHeaderEntry (h : ∀ entry ∈ entries, SoundEntry entry)
    (hnew : SoundEntry ⟨name, value, none⟩) :
    ∀ entry ∈ setHeaderEntry entries name value, SoundEntry entry := by
  intro entry hentry
  rcases mem_append.mp hentry with hold | hadded
  · exact sound_filter h entry hold
  · rw [mem_singleton.mp hadded]
    exact hnew

end Entries

theorem parsePayload_ok {N P : Type} {fromValue : Value N → Except String P}
    {ruleId rewriteType : String} {payload : Value N} {p : P}
    (h : parsePayload fromValue ruleId rewriteType payload = .ok p) : fromValue payload = .ok p := by
  unfold parsePayload at h
  cases hvalue : fromValue payload with
  | error error =>
    rw [hvalue] at h
    cases h
  | ok q =>
    rw [hvalue] at h
    exact h

section Rules

variable {N Url : Type} [UrlOps Url]
variable {run : RuleRun Url} {request : ParsedProxyRequest Url}

/-- An action leaves a sound request, and the request it found unless it succeeds. -/
structure ActionEffect (request : ParsedProxyRequest Url)
    (r : RuleRun Url × Except String RewriteOutcome) : Prop where
  sound : SoundRequest r.1.request
  unchanged : r.2.toOption ≠ some .success → r.1.request = request

theorem ActionEffect.early (hsound : SoundRequest request)
    {r : RuleRun Url × Except String RewriteOutcome} (h : r.1.request = request) :
    ActionEffect request r := ⟨h ▸ hsound, fun _ => h⟩

theorem ActionEffect.done (h : SoundRequest run.request) :
    ActionEffect request (run, .ok .success) :=
  ⟨h, fun hne => absurd rfl hne⟩

section Run

variable (hrun : SoundRequest run.request)

include hrun

theorem applyHeaderAction_effect {payload : RewriteHeaderPayload} (sequence : Nat)
    (h : ∀ value, payload.value = some value → SoundEntry ⟨payload.headerName, value, none⟩) :
    ActionEffect run.request (applyHeaderAction payload sequence run) := by
  unfold applyHeaderAction
  split
  · exact .early hrun rfl
  · refine .done ⟨?_, hrun.host⟩
    show ∀ entry ∈ ite _ _ _, SoundEntry entry
    split
    · exact sound_filter hrun.entries
    · cases hvalue : payload.value with
      | none => exact hrun.entries
      | some value => exact sound_setHeaderEntry hrun.entries (h value hvalue)

theorem withPayload_effect {P : Type} {payload : Except String P}
    {act : P → RuleRun Url × Except String RewriteOutcome}
    (h : ∀ p, payload = .ok p → ActionEffect run.request (act p)) :
    ActionEffect run.request (withPayload run payload act) := by
  cases payload with
  | error error => exact .early hrun rfl
  | ok p => exact h p rfl

omit hrun [UrlOps Url] in
theorem replaceBody_ok [BEq N] {env : RewriteEnv N} {payload : RewriteBodyPayload}
    {sequence : Nat} {run' : RuleRun Url} (h : replaceBody env payload sequence run = .ok run') :
    run'.request.requestHeaders = run.request.requestHeaders ∧
      run'.request.url = run.request.url := by
  unfold replaceBody at h
  split at h
  · obtain ⟨r, -, hr⟩ := Fallible.bind_ok_iff.mp h
    obtain rfl := Except.ok.inj hr
    exact ⟨rfl, rfl⟩
  · obtain rfl := Except.ok.inj h
    exact ⟨rfl, rfl⟩

theorem applyBodyAction_effect [BEq N] (env : RewriteEnv N) (isHttp2 : Bool)
    {payload : RewriteBodyPayload} (sequence : Nat)
    (h : ∃ value, headerValueFromStr payload.contentType = .ok value) :
    ActionEffect run.request (applyBodyAction env isHttp2 payload sequence run) := by
  unfold applyBodyAction
  split
  · exact .early hrun rfl
  · split
    · exact .early hrun rfl
    · split
      case h_1 => exact .early hrun rfl
      case h_2 run' hreplaced =>
        obtain ⟨hentries, hurl⟩ := replaceBody_ok hreplaced
        have hsound : ∀ entry ∈ run'.request.requestHeaders, SoundEntry entry :=
          hentries ▸ hrun.entries
        refine .done ⟨?_, hurl ▸ hrun.host⟩
        exact sound_filter (sound_setHeaderEntry hsound (soundEntry_of_value (by decide) h))

variable (hurls : UrlLaws Url)

include hurls

theorem applyQueryAction_effect (payload : RewriteQueryPayload) (sequence : Nat) :
    ActionEffect run.request (applyQueryAction payload sequence run) := by
  refine .done ⟨hrun.entries, ?_⟩
  simp only [RuleRun.push, apply_ite UrlOps.hostStr, hurls.setQuery, hurls.appendPairs, ite_self]
  exact hrun.host

theorem applyRedirectAction_effect {payload : RewriteRedirectPayload} (ruleId : String)
    (sequence : Nat)
    (h : ∀ url : Url, UrlOps.parse payload.targetUrl = .ok url →
      ∃ host, UrlOps.hostStr url = some host) :
    ActionEffect run.request (applyRedirectAction payload ruleId sequence run) := by
  unfold applyRedirectAction
  split
  · exact .early hrun rfl
  · next url hurl =>
    refine .done ⟨hrun.entries, ?_⟩
    simp only [RuleRun.push, apply_ite UrlOps.hostStr, hurls.setQuery, hurls.setPath, ite_self]
    exact h url hurl

theorem applyRequestAction_effect [BEq N] (env : RewriteEnv N) (isHttp2 : Bool)
    {action : String × Value N} (ruleId : String) (sequence : Nat) (h : SoundAction Url env action) :
    ActionEffect run.request
      (applyRequestAction env isHttp2 action.1 action.2 ruleId sequence run) := by
  unfold applyRequestAction
  split
  · next htype =>
    refine withPayload_effect hrun fun p hp => applyHeaderAction_effect hrun sequence fun value => ?_
    exact h.header htype p value (parsePayload_ok hp)
  · split
    · exact withPayload_effect hrun fun p _ => applyQueryAction_effect hrun hurls p sequence
    · split
      · next htype =>
        refine withPayload_effect hrun fun p hp => ?_
        exact applyBodyAction_effect hrun env isHttp2 sequence (h.body htype p (parsePayload_ok hp))
      · split
        · next htype =>
          refine withPayload_effect hrun fun p hp => ?_
          refine applyRedirectAction_effect hrun hurls ruleId sequence fun url => ?_
          exact h.redirect htype p url (parsePayload_ok hp)
        · exact .early hrun rfl

end Run

variable [BEq N] (env : RewriteEnv N) (isHttp2 : Bool)

/-- The request at the head of the action loop: sound, and untouched until an action has succeeded. -/
structure LoopInv (request : ParsedProxyRequest Url) (loop : ActionLoop Url) : Prop where
  sound : SoundRequest loop.run.request
  unchanged : loop.anySuccess = false → loop.run.request = request

theorem actionLoopStep_inv (hurls : UrlLaws Url) {loop : ActionLoop Url}
    (h : LoopInv request loop) (ruleId : String) {action : (String × Value N) × Nat}
    (haction : SoundAction Url env action.1) :
    LoopInv request (actionLoopStep env isHttp2 ruleId loop action) := by
  have heffect := applyRequestAction_effect h.sound hurls env isHttp2 ruleId action.2 haction
  unfold actionLoopStep
  split
  case h_1 run hrun =>
    rw [hrun] at heffect
    exact ⟨heffect.sound, fun hfalse => nomatch hfalse⟩
  all_goals
    rename_i hrun
    rw [hrun] at heffect
    have hsame := heffect.unchanged (fun hsuccess => nomatch hsuccess)
    exact ⟨heffect.sound, fun hfalse => hsame.trans (h.unchanged hfalse)⟩

theorem actionLoop_inv (hurls : UrlLaws Url) (ruleId : String)
    {actions : List ((String × Value N) × Nat)} {loop : ActionLoop Url}
    (h : LoopInv request loop) (hactions : ∀ action ∈ actions, SoundAction Url env action.1) :
    LoopInv request (actions.foldl (actionLoopStep env isHttp2 ruleId) loop) := by
  induction actions generalizing loop with
  | nil => exact h
  | cons action actions ih =>
    obtain ⟨haction, hrest⟩ := forall_mem_cons.mp hactions
    exact ih (actionLoopStep_inv env isHttp2 hurls h ruleId haction) hrest

theorem applyOneRequestRule_effect (hurls : UrlLaws Url) {rule : RewriteRule N}
    (hrun : SoundRequest run.request)
    (hrule : ∀ action ∈ rewriteActions rule, SoundAction Url env action) :
    ActionEffect run.request (applyOneRequestRule env isHttp2 rule run) := by
  have hstart : LoopInv run.request ⟨run, false, false, none⟩ := ⟨hrun, fun _ => rfl⟩
  have hactions : ∀ action ∈ (rewriteActions rule).zipIdx, SoundAction Url env action.1 :=
    fun action haction => hrule _ (fst_mem_of_mem_zipIdx haction)
  have hinv := actionLoop_inv env isHttp2 hurls rule.id hstart hactions
  refine ⟨hinv.sound, fun hne => hinv.unchanged ?_⟩
  by_contra hsuccess
  rw [Bool.not_eq_false] at hsuccess
  apply hne
  simp only [applyOneRequestRule, hsuccess, if_true]
  rfl

theorem isSome_parsedEntry_iff {entry : ProxyHeaderEntry} :
    (parsedEntry entry).isSome ↔ WellFormedEntry entry := by
  rw [Option.isSome_iff_exists]
  constructor
  · rintro ⟨header, h⟩
    obtain ⟨hname, hvalue⟩ := parsedEntry_eq_some_iff.mp h
    exact ⟨⟨header.1, hname⟩, header.2, hvalue⟩
  · rintro ⟨⟨name, hname⟩, value, hvalue⟩
    exact ⟨(name, value), parsedEntry_eq_some_iff.mpr ⟨hname, hvalue⟩⟩

theorem buildUpstreamHeaders_ok_iff (headers : List ProxyHeaderEntry) :
    (∃ m, buildUpstreamHeadersFromEntries headers = .ok m) ↔
      ∀ entry ∈ forwardedEntries headers, WellFormedEntry entry := by
  simp only [buildUpstreamHeaders_eq_ok_iff, isSome_parsedEntry_iff]
  exact ⟨fun ⟨_, hall, _⟩ => hall, fun hall => ⟨_, hall, rfl⟩⟩

theorem rebuild_of_rebuildable (h : Rebuildable request) :
    (rebuildRequestRuntimeState request).2 = .ok () := by
  obtain ⟨headers, hheaders⟩ := (buildUpstreamHeaders_ok_iff _).mpr h.entries
  obtain ⟨host, hhost⟩ := h.host
  simp only [rebuildRequestRuntimeState, hheaders, hhost]

theorem rebuild_of_not_rebuildable (h : ¬ Rebuildable request) :
    ∃ error, (rebuildRequestRuntimeState request).2 = .error error ∧
      ((rebuildRequestRuntimeState request).1 = request ∧
          (∀ headers, buildUpstreamHeadersFromEntries request.requestHeaders ≠ .ok headers) ∨
        ∃ headers, buildUpstreamHeadersFromEntries request.requestHeaders = .ok headers ∧
          (rebuildRequestRuntimeState request).1 = { request with headers := headers }) := by
  cases hheaders : buildUpstreamHeadersFromEntries request.requestHeaders with
  | error error =>
    have hrebuild : rebuildRequestRuntimeState request = (request, .error error) := by
      simp only [rebuildRequestRuntimeState, hheaders]
    rw [hrebuild]
    exact ⟨error, rfl, .inl ⟨rfl, fun _ hok => nomatch hok⟩⟩
  | ok headers =>
    cases hhost : UrlOps.hostStr request.url with
    | none =>
      have hrebuild : rebuildRequestRuntimeState request = ({ request with headers := headers },
          .error "request URL does not contain a host after runtime transformation") := by
        simp only [rebuildRequestRuntimeState, hheaders, hhost]
      rw [hrebuild]
      exact ⟨_, rfl, .inr ⟨headers, rfl, rfl⟩⟩
    | some host =>
      refine absurd ⟨?_, host, hhost⟩ h
      exact (buildUpstreamHeaders_ok_iff _).mp ⟨headers, hheaders⟩

theorem SoundRequest.rebuildable (h : SoundRequest request) : Rebuildable request := by
  refine ⟨fun entry hentry => ?_, h.host⟩
  obtain ⟨hmem, hkept⟩ := mem_filter.mp hentry
  refine (h.entries entry hmem).resolve_left fun hpseudo => ?_
  rw [Http.skipsEntry, hpseudo, Bool.or_true] at hkept
  cases hkept

theorem rebuild_sound (hurls : UrlLaws Url) (h : SoundRequest request) :
    SoundRequest (rebuildRequestRuntimeState request).1 := by
  obtain ⟨headers, hheaders⟩ := (buildUpstreamHeaders_ok_iff _).mpr h.rebuildable.entries
  obtain ⟨host, hhost⟩ := h.host
  simp only [rebuildRequestRuntimeState, hheaders, hhost]
  refine ⟨?_, host, hhost⟩
  exact sound_setHeaderEntry h.entries
    (soundEntry_of_value (by decide) (hurls.hostValue request.url))

/-- A sound rule leaves a sound request. If it fails it leaves the request it found, since the request
can be rebuilt after every successful action. -/
theorem applyRequestRule_sound (hurls : UrlLaws Url) {rule : RewriteRule N}
    (hrequest : SoundRequest request)
    (hrule : ∀ action ∈ rewriteActions rule, SoundAction Url env action) :
    SoundRequest (applyRequestRule env isHttp2 rule request).1 ∧
      ((applyRequestRule env isHttp2 rule request).2.outcome = .error →
        (applyRequestRule env isHttp2 rule request).1 = request) := by
  have hrun : SoundRequest (RuleRun.mk request []).request := hrequest
  have heffect := applyOneRequestRule_effect env isHttp2 hurls hrun hrule
  unfold applyRequestRule
  generalize applyOneRequestRule env isHttp2 rule ⟨request, []⟩ = r at heffect
  obtain ⟨run, error | outcome⟩ := r
  · exact ⟨heffect.sound, fun _ => heffect.unchanged nofun⟩
  · cases outcome with
    | success =>
      have hok := rebuild_of_rebuildable heffect.sound.rebuildable
      have hsound := rebuild_sound hurls heffect.sound
      simp only [settleRule]
      generalize rebuildRequestRuntimeState run.request = rebuilt at hok hsound
      obtain ⟨request', result⟩ := rebuilt
      obtain rfl : result = .ok () := hok
      exact ⟨hsound, nofun⟩
    | skipped | error => exact ⟨heffect.sound, fun _ => heffect.unchanged nofun⟩

theorem requestBefore_sound (hurls : UrlLaws Url) {rules : List (RewriteRule N)}
    (hrequest : SoundRequest request)
    (hrules : ∀ rule ∈ rules, ∀ action ∈ rewriteActions rule, SoundAction Url env action) :
    SoundRequest (requestBefore env isHttp2 rules request) := by
  induction rules generalizing request with
  | nil => exact hrequest
  | cons rule rules ih =>
    obtain ⟨hrule, hrest⟩ := forall_mem_cons.mp hrules
    exact ih (applyRequestRule_sound env isHttp2 hurls hrequest hrule).1 hrest

theorem applyRequestRules_append (rules rules' : List (RewriteRule N))
    (request : ParsedProxyRequest Url) :
    outcomes env isHttp2 (rules ++ rules') request
      = outcomes env isHttp2 rules request ++
        outcomes env isHttp2 rules' (requestBefore env isHttp2 rules request) := by
  induction rules generalizing request with
  | nil => rfl
  | cons rule rules ih =>
    exact congrArg (cons _) (ih (applyRequestRule env isHttp2 rule request).1)

theorem length_outcomes (rules : List (RewriteRule N)) (request : ParsedProxyRequest Url) :
    (outcomes env isHttp2 rules request).length = rules.length := by
  induction rules generalizing request with
  | nil => rfl
  | cons rule rules ih =>
    exact congrArg (· + 1) (ih (applyRequestRule env isHttp2 rule request).1)

theorem outcomes_after (earlier : List (RewriteRule N)) (rule : RewriteRule N)
    (later : List (RewriteRule N)) (request : ParsedProxyRequest Url) :
    (outcomes env isHttp2 (earlier ++ rule :: later) request).drop (earlier.length + 1)
        = outcomes env isHttp2 later
          (applyRequestRule env isHttp2 rule (requestBefore env isHttp2 earlier request)).1 ∧
      (outcomes env isHttp2 (earlier ++ later) request).drop earlier.length
        = outcomes env isHttp2 later (requestBefore env isHttp2 earlier request) := by
  have hlen := length_outcomes env isHttp2 earlier request
  constructor
  · rw [applyRequestRules_append, drop_append, hlen, drop_eq_nil_of_le (by omega)]
    simp only [Nat.add_sub_cancel_left, nil_append]
    rfl
  · rw [applyRequestRules_append, drop_left' hlen]

end Rules

namespace Sample

/-- URLs of the form `http://host/`. -/
structure HostUrl where
  host : String
  valid : (asBytes host).all isValueByte = true
  deriving DecidableEq

instance : UrlOps HostUrl where
  parse := fun s =>
    let host := String.ofList (s.toList.drop 7).dropLast
    if !"http://".toList.isPrefixOf s.toList then .error "relative URL without a base"
    else if h : (asBytes host).all isValueByte then .ok ⟨host, h⟩
    else .error "invalid domain character"
  asStr := fun url => "http://" ++ url.host ++ "/"
  scheme := fun _ => "http"
  hostStr := fun url => some url.host
  port := fun _ => none
  path := fun _ => "/"
  query := fun _ => none
  queryPairs := fun _ => []
  setPath := fun url _ => url
  setQuery := fun url _ => url
  appendPairs := fun url _ => url

theorem hostUrl_laws : UrlLaws HostUrl where
  setPath := fun _ _ => rfl
  setQuery := fun _ _ => rfl
  appendPairs := fun _ _ => rfl
  hostValue := fun url => ⟨_, if_pos url.valid⟩

def setHeader (headerName value : String) : RewriteHeaderPayload :=
  ⟨headerName, "set", "request", some value⟩

/-- Payloads: `true` sets `X-Trace`, everything else sets `X Trace`. Every redirect goes to a relative
URL. -/
def env : RewriteEnv Unit where
  numOf := fun _ => none
  toStr := fun _ => none
  toVecError := fun _ => ""
  parseError := fun _ => ""
  utf8Error := fun _ => ""
  parseF64 := fun _ => none
  decodeBodyBytes := fun _ _ => none
  lossy := fun _ => ""
  headerPayload := fun
    | .bool true => .ok (setHeader "X-Trace" "1")
    | _ => .ok (setHeader "X Trace" "1")
  queryPayload := fun _ => .error ""
  bodyPayload := fun _ => .error ""
  redirectPayload := fun _ => .ok ⟨false, false, "/staging"⟩

def plainRule (id rewriteType : String) (payload : Value Unit) : RewriteRule Unit :=
  ⟨none, id, true, id, 0, ⟨[], "request", "*", none⟩, rewriteType, "default", payload⟩

def invalidName : RewriteRule Unit := plainRule "invalid" "header" .null

def validName : RewriteRule Unit := plainRule "valid" "header" (.bool true)

def relativeTarget : RewriteRule Unit := plainRule "relative" "redirect" .null

def request : ParsedProxyRequest HostUrl := Http.Sample.arrived ⟨"example.com", by decide⟩

end Sample

open Sample (env invalidName relativeTarget request validName)

end AiProxy.Rules
