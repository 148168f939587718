import AiProxy.Http.HyperHeaders
import AiProxy.Http.Proofs.UpstreamHeadersProofs

/-!
# The two header filters

The header map that goes upstream is first built from hyper's header map and is rebuilt from the
recorded entries when a rule has run.
-/

namespace AiProxy.Http

open List

variable {name : HeaderName} {header : HeaderName × HeaderValue}

theorem toAsciiLowercase_of_isHeaderName (h : IsHeaderName name) :
    toAsciiLowercase (String.ofList name) = name := (headerNameFromBytes_eq_ok_iff.mp h).2

theorem eqIgnoreAsciiCase_of_isHeaderName (h : IsHeaderName name) (text : String) :
    eqIgnoreAsciiCase (String.ofList name) text = decide (name = toAsciiLowercase text) := by
  unfold eqIgnoreAsciiCase
  rw [toAsciiLowercase_of_isHeaderName h]

theorem isTokenChar_ne_colon {c : Char} (h : isTokenChar c = true) : c ≠ ':' := by
  rintro rfl
  revert h
  decide

theorem not_pseudo_of_isHeaderName (h : IsHeaderName name) :
    isPseudoHeaderName (String.ofList name) = false := by
  obtain ⟨⟨hne, hall, -⟩, -⟩ := headerNameFromBytes_eq_ok_iff.mp h
  rw [String.toList_ofList] at hne hall
  obtain ⟨c, cs, rfl⟩ := exists_cons_of_ne_nil hne
  have hc : isTokenChar c = true := all_eq_true.mp hall c mem_cons_self
  unfold isPseudoHeaderName
  rw [String.toList_ofList]
  exact decide_eq_false fun heq => isTokenChar_ne_colon hc (Option.some.inj heq)

theorem asBytes_lossyText (lossy : List UInt8 → String) {value : HeaderValue}
    (h : (String.fromUTF8? ⟨value.toArray⟩).isSome) : asBytes (lossyText lossy value) = value := by
  obtain ⟨text, htext⟩ := Option.isSome_iff_exists.mp h
  unfold lossyText
  rw [htext]
  exact Utf8.bytes_of_fromUTF8? htext

theorem isWebsocketValue_eq (lossy : List UInt8 → String) {value : HeaderValue}
    (h : (String.fromUTF8? ⟨value.toArray⟩).isSome) :
    isWebsocketValue value = eqIgnoreAsciiCase (lossyText lossy value) "websocket" := by
  conv_lhs => rw [← asBytes_lossyText lossy h]
  exact decide_eq_decide.mpr Utf8.map_lower_bytes_inj

theorem parsedEntry_headerEntry (lossy : List UInt8 → String) (hname : IsHeaderName header.1)
    (hutf8 : (String.fromUTF8? ⟨header.2.toArray⟩).isSome)
    (hbytes : header.2.all isValueByte = true) :
    parsedEntry (headerEntry lossy header) = some header := by
  refine parsedEntry_eq_some_iff.mpr ⟨hname, ?_⟩
  rw [headerEntry, headerValueFromStr, asBytes_lossyText lossy hutf8, if_pos hbytes]

section Recorded

variable (lossy : List UInt8 → String) (parts : RequestParts) (isH2 : Bool)

theorem isHeaderName_of_mem_iter (h : header ∈ parts.headers.iter) : IsHeaderName header.1 :=
  parts.names header.1 (HeaderMap.name_mem_of_mem_iter h)

theorem pseudo_of_mem {entry : ProxyHeaderEntry} (h : entry ∈ pseudoEntries parts isH2) :
    isPseudoHeaderName entry.name = true := by
  unfold pseudoEntries at h
  split at h
  · simp only [mem_append, mem_cons, not_mem_nil, or_false, Option.mem_toList,
      Option.map_eq_some_iff] at h
    rcases h with ((rfl | rfl) | ⟨_, -, rfl⟩) | ⟨_, -, rfl⟩
    · exact (by decide : isPseudoHeaderName ":method" = true)
    · exact (by decide : isPseudoHeaderName ":scheme" = true)
    · exact (by decide : isPseudoHeaderName ":authority" = true)
    · exact (by decide : isPseudoHeaderName ":path" = true)
  · cases h

theorem eqIgnoreAsciiCase_of_pseudo {name text : String} (h : isPseudoHeaderName name = true)
    (htext : (toAsciiLowercase text).head? ≠ some ':') : eqIgnoreAsciiCase name text = false := by
  refine decide_eq_false fun heq => htext ?_
  have hhead : name.toList.head? = some ':' := of_decide_eq_true h
  rw [← heq]
  unfold toAsciiLowercase
  rw [head?_map, hhead]
  rfl

variable (hutf8 : ∀ header ∈ parts.headers.iter, (String.fromUTF8? ⟨header.2.toArray⟩).isSome)

include hutf8

theorem stripSet_recorded : stripSetOfEntries (buildRequestHeadersFromHyper lossy parts isH2)
      = stripSetOfHyper parts.headers := by
  unfold stripSetOfEntries stripSetOfHyper hopByHopStripSet buildRequestHeadersFromHyper
  congr 1
  rw [map_append, flatMap_append, map_map]
  have hpseudo : ((pseudoEntries parts isH2).map fun h => (h.name, asBytes h.value)).flatMap
      (fun p => if eqIgnoreAsciiCase p.1 "connection" || eqIgnoreAsciiCase p.1 "proxy-connection"
        then parseConnectionTokens p.2 else []) = [] := by
    rw [flatMap_eq_nil_iff]
    intro pair hpair
    obtain ⟨entry, hentry, rfl⟩ := mem_map.mp hpair
    have hp := pseudo_of_mem parts isH2 hentry
    rw [eqIgnoreAsciiCase_of_pseudo hp (by decide), eqIgnoreAsciiCase_of_pseudo hp (by decide)]
    rfl
  rw [hpseudo, nil_append]
  congr 1
  refine map_congr_left fun header hheader => ?_
  show (String.ofList header.1, asBytes (lossyText lossy header.2)) = _
  rw [asBytes_lossyText lossy (hutf8 header hheader)]

theorem isWsUpgrade_recorded :
    isWsUpgradeEntries (buildRequestHeadersFromHyper lossy parts isH2) = true ↔
      ∃ value, ("upgrade".toList, value) ∈ parts.headers.iter ∧ isWebsocketValue value = true := by
  unfold isWsUpgradeEntries buildRequestHeadersFromHyper
  rw [any_eq_true]
  constructor
  · rintro ⟨entry, hentry, hws⟩
    rw [Bool.and_eq_true] at hws
    rcases mem_append.mp hentry with hpseudo | hmap
    · have hp := pseudo_of_mem parts isH2 hpseudo
      rw [eqIgnoreAsciiCase_of_pseudo hp (by decide)] at hws
      cases hws.1
    · obtain ⟨header, hheader, rfl⟩ := mem_map.mp hmap
      have hname := isHeaderName_of_mem_iter parts hheader
      have hup : header.1 = "upgrade".toList := by
        have := hws.1
        unfold headerEntry at this
        rw [eqIgnoreAsciiCase_of_isHeaderName hname] at this
        exact of_decide_eq_true this
      refine ⟨header.2, hup ▸ hheader, ?_⟩
      rw [isWebsocketValue_eq lossy (hutf8 header hheader)]
      exact hws.2
  · rintro ⟨value, hmem, hws⟩
    refine ⟨headerEntry lossy ("upgrade".toList, value),
      mem_append_right _ (mem_map_of_mem hmem), ?_⟩
    rw [isWebsocketValue_eq lossy (hutf8 _ hmem)] at hws
    rw [Bool.and_eq_true]
    refine ⟨?_, hws⟩
    show eqIgnoreAsciiCase (String.ofList "upgrade".toList) "upgrade" = true
    decide

theorem forwarded_recorded (hws : isWsUpgradeEntries (buildRequestHeadersFromHyper lossy parts isH2)
      = isWsUpgradeHyper parts.headers) :
    forwardedEntries (buildRequestHeadersFromHyper lossy parts isH2)
      = (parts.headers.iter.filter fun h => !skipsHyper parts.headers h.1).map
          (headerEntry lossy) := by
  unfold forwardedEntries
  rw [hws, stripSet_recorded lossy parts isH2 hutf8]
  unfold buildRequestHeadersFromHyper
  rw [filter_append, filter_map]
  have hpseudo : (pseudoEntries parts isH2).filter (fun h =>
      !skipsEntry (isWsUpgradeHyper parts.headers) (stripSetOfHyper parts.headers) h.name) = [] := by
    rw [filter_eq_nil_iff]
    intro entry hentry
    unfold skipsEntry
    rw [pseudo_of_mem parts isH2 hentry, Bool.or_true]
    decide
  rw [hpseudo, nil_append]
  congr 1
  refine filter_congr fun header _ => ?_
  show (!skipsEntry _ _ (String.ofList header.1)) = _
  congr 1
  unfold skipsEntry skipsHyper shouldSkipHyperHeader shouldSkipRequestHeader isHopByHopOnly
  cases isWsUpgradeHyper parts.headers with
  | true =>
    simp only [Bool.not_true, Bool.and_false, Bool.false_or, Bool.true_and, Bool.false_eq_true,
      if_false]
    rw [Bool.or_comm]
    simp only [Bool.or_assoc]
  | false =>
    simp only [Bool.not_false, Bool.and_true, Bool.false_and, Bool.or_false, if_true]
    rw [Bool.or_comm]
    simp only [Bool.or_assoc]

end Recorded

/-! ## The map for the upstream -/

theorem buildUpstreamHeadersFromHyper_eq (parts : RequestParts) :
    buildUpstreamHeadersFromHyper parts.headers
      = parts.headers.keep fun name => !skipsHyper parts.headers name :=
  HeaderMap.appendAll_filter parts.wf fun name => !skipsHyper parts.headers name

theorem iter_upstreamFromHyper (parts : RequestParts) :
    (buildUpstreamHeadersFromHyper parts.headers).iter
      = parts.headers.iter.filter fun h => !skipsHyper parts.headers h.1 := by
  rw [buildUpstreamHeadersFromHyper_eq, HeaderMap.iter_keep]

theorem upgrade_not_stripped (strip : List (List Char)) :
    shouldStripHopByHop (String.ofList "upgrade") strip true = false := by
  have hup : eqIgnoreAsciiCase (String.ofList "upgrade") "upgrade" = true := by decide
  unfold shouldStripHopByHop
  simp only [hup, if_true, Bool.not_true, Bool.and_false, Bool.false_and]

theorem upgrade_kept_by_entries (strip : List (List Char)) :
    skipsEntry true strip (String.ofList "upgrade") = false := by
  unfold skipsEntry
  rw [upgrade_not_stripped]
  decide

theorem upgrade_kept_by_hyper {headers : HeaderMap} (h : isWsUpgradeHyper headers = true) :
    skipsHyper headers "upgrade" = false := by
  unfold skipsHyper
  rw [h, upgrade_not_stripped]
  decide

theorem upgrade_skipped_by_hyper {headers : HeaderMap} (h : isWsUpgradeHyper headers = false) :
    skipsHyper headers "upgrade" = true := by
  have hstandard : isStandardHopByHopHeader (String.ofList "upgrade") = true := by decide
  unfold skipsHyper shouldStripHopByHop
  rw [h, hstandard]
  simp only [Bool.false_eq_true, if_false, Bool.true_or, Bool.or_true]

section Rebuild

variable (lossy : List UInt8 → String) {parts : RequestParts} (isH2 : Bool)

theorem mem_iter_of_mem_upstream (h : header ∈ (buildUpstreamHeadersFromHyper parts.headers).iter) :
    header ∈ parts.headers.iter := by
  rw [iter_upstreamFromHyper] at h
  exact mem_of_mem_filter h

theorem exists_websocket_of_isWsUpgradeHyper (h : isWsUpgradeHyper parts.headers = true) :
    ∃ value ∈ parts.headers.getAll "upgrade", isWebsocketValue value = true := by
  obtain ⟨value, hvalue, hws⟩ := (Option.any_eq_true _ _).mp h
  exact ⟨value, mem_of_head? hvalue, hws⟩

variable (hutf8 : ∀ header ∈ parts.headers.iter, (String.fromUTF8? ⟨header.2.toArray⟩).isSome)

include hutf8

theorem isWsUpgrade_recorded_iff :
    isWsUpgradeEntries (buildRequestHeadersFromHyper lossy parts isH2) = true ↔
      ∃ value ∈ parts.headers.getAll "upgrade".toList, isWebsocketValue value = true := by
  rw [isWsUpgrade_recorded lossy parts isH2 hutf8]
  simp only [HeaderMap.mem_getAll_iff parts.wf.nodup]

theorem rebuild_of_same_upgrade
    (hbytes : ∀ header ∈ parts.headers.iter, header.2.all isValueByte = true)
    (hws : isWsUpgradeEntries (buildRequestHeadersFromHyper lossy parts isH2)
      = isWsUpgradeHyper parts.headers) :
    buildUpstreamHeadersFromEntries (buildRequestHeadersFromHyper lossy parts isH2)
      = .ok (buildUpstreamHeadersFromHyper parts.headers) := by
  have hparsed : ∀ header ∈ (buildUpstreamHeadersFromHyper parts.headers).iter,
      parsedEntry (headerEntry lossy header) = some header := by
    intro header hheader
    have hiter := mem_iter_of_mem_upstream hheader
    exact parsedEntry_headerEntry lossy (isHeaderName_of_mem_iter parts hiter) (hutf8 header hiter)
      (hbytes header hiter)
  rw [buildUpstreamHeaders_eq_ok_iff, forwarded_recorded lossy parts isH2 hutf8 hws,
    ← iter_upstreamFromHyper]
  refine ⟨fun entry hentry => ?_, ?_⟩
  · obtain ⟨header, hheader, rfl⟩ := mem_map.mp hentry
    rw [hparsed header hheader]
    rfl
  · have hwf : (buildUpstreamHeadersFromHyper parts.headers).WF := by
      rw [buildUpstreamHeadersFromHyper_eq]
      exact parts.wf.keep _
    have hback : ((buildUpstreamHeadersFromHyper parts.headers).iter.map
        (headerEntry lossy)).filterMap parsedEntry
        = (buildUpstreamHeadersFromHyper parts.headers).iter :=
      filterMap_map.trans ((filterMap_congr hparsed).trans filterMap_some)
    rw [hback, HeaderMap.appendAll_iter hwf]

theorem rebuild_ne_of_late_upgrade
    (hany : isWsUpgradeEntries (buildRequestHeadersFromHyper lossy parts isH2) = true)
    (hfirst : isWsUpgradeHyper parts.headers = false) :
    buildUpstreamHeadersFromEntries (buildRequestHeadersFromHyper lossy parts isH2)
      ≠ .ok (buildUpstreamHeadersFromHyper parts.headers) := by
  intro hok
  obtain ⟨value, hiter, -⟩ := (isWsUpgrade_recorded lossy parts isH2 hutf8).mp hany
  have hentry : headerEntry lossy ("upgrade", value)
      ∈ forwardedEntries (buildRequestHeadersFromHyper lossy parts isH2) := by
    unfold forwardedEntries
    refine mem_filter.mpr ⟨mem_append_right _ (mem_map_of_mem hiter), ?_⟩
    rw [hany]
    show (!skipsEntry true _ (String.ofList "upgrade")) = true
    rw [upgrade_kept_by_entries]
    rfl
  obtain ⟨hparsed, hmap⟩ := buildUpstreamHeaders_eq_ok_iff.mp hok
  obtain ⟨⟨name, value'⟩, hheader⟩ := Option.isSome_iff_exists.mp (hparsed _ hentry)
  have hname : name = "upgrade" :=
    Except.ok.inj ((parsedEntry_eq_some_iff.mp hheader).1.symm.trans
      (isHeaderName_of_mem_iter parts hiter))
  have hthere : (buildUpstreamHeadersFromHyper parts.headers).getAll name ≠ [] := by
    rw [hmap]
    exact HeaderMap.getAll_ne_nil_of_mem_appendAll (mem_filterMap.mpr ⟨_, hentry, hheader⟩)
  apply hthere
  rw [buildUpstreamHeadersFromHyper_eq, HeaderMap.getAll_keep, hname,
    upgrade_skipped_by_hyper hfirst]
  rfl

end Rebuild

/-- The recorded entries of a request give the header map that the request was parsed to exactly if
the first `Upgrade` header says `websocket` whenever one of them does. That a value has the bytes of a
header value holds of every parsed request. -/
theorem recorded_entries_rebuild_iff (lossy : List UInt8 → String) (parts : RequestParts)
    (isH2 : Bool)
    (hutf8 : ∀ header ∈ parts.headers.iter, (String.fromUTF8? ⟨header.2.toArray⟩).isSome)
    (hbytes : ∀ header ∈ parts.headers.iter, header.2.all isValueByte = true) :
    buildUpstreamHeadersFromEntries (buildRequestHeadersFromHyper lossy parts isH2)
        = .ok (buildUpstreamHeadersFromHyper parts.headers) ↔
      ((∃ value ∈ parts.headers.getAll "upgrade", isWebsocketValue value = true) →
        isWsUpgradeHyper parts.headers = true) := by
  have hany := isWsUpgrade_recorded_iff lossy isH2 hutf8
  constructor
  · intro hok hsome
    by_contra hnot
    exact rebuild_ne_of_late_upgrade lossy isH2 hutf8 (hany.mpr hsome)
      (Bool.eq_false_iff.mpr hnot) hok
  · intro hagree
    have hws : isWsUpgradeEntries (buildRequestHeadersFromHyper lossy parts isH2)
        = isWsUpgradeHyper parts.headers :=
      Bool.eq_iff_iff.mpr ⟨fun h => hagree (hany.mp h),
        fun h => hany.mpr (exists_websocket_of_isWsUpgradeHyper h)⟩
    exact rebuild_of_same_upgrade lossy isH2 hutf8 hbytes hws

namespace Sample

def parts (headers : HeaderMap) (wf : headers.WF)
    (names : ∀ name ∈ headers.names, IsHeaderName name) : RequestParts :=
  ⟨"GET", none, some "/", headers, wf, names⟩

def handshake : RequestParts :=
  parts [("connection", [asBytes "Upgrade"]), ("upgrade", [asBytes "websocket"]),
    ("x-name", [asBytes "é"])] ⟨by decide, by decide⟩ (by decide)

def lateUpgrade : RequestParts :=
  parts [("upgrade", [asBytes "h2c", asBytes "websocket"])] ⟨by decide, by decide⟩ (by decide)

end Sample

theorem recorded_entries_rebuild_handshake :
    buildUpstreamHeadersFromEntries
        (buildRequestHeadersFromHyper (fun _ => "") Sample.handshake false)
      = .ok (buildUpstreamHeadersFromHyper Sample.handshake.headers) :=
  (recorded_entries_rebuild_iff (fun _ => "") Sample.handshake false (by decide)
    (by decide)).mpr fun _ => by decide

/-- A late `Upgrade: websocket` is dropped when the request is parsed and comes back when it is
rebuilt. -/
theorem recorded_entries_differ :
    buildUpstreamHeadersFromHyper Sample.lateUpgrade.headers = [] ∧
      buildUpstreamHeadersFromEntries
          (buildRequestHeadersFromHyper (fun _ => "") Sample.lateUpgrade false)
        = .ok [("upgrade", [asBytes "h2c", asBytes "websocket"])] := by
  constructor <;> decide

end AiProxy.Http
