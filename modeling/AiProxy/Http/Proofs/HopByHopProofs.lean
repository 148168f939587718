import AiProxy.Http.Proofs.HyperHeadersProofs

/-!
# Hop-by-hop headers

A request that is no WebSocket upgrade should reach the upstream without the headers of its connection
to the proxy.
-/

namespace AiProxy.Http

open List

variable {name : HeaderName}

theorem token_of_words {before word after : List UInt8}
    (hbefore : ∀ b ∈ before, isAsciiWhitespace b = true)
    (hword : ∀ b ∈ word, isAsciiWhitespace b = false) (hne : word ≠ [])
    (hafter : ∀ b ∈ after.head?, isAsciiWhitespace b = true) :
    ((before ++ word ++ after).dropWhile isAsciiWhitespace).takeWhile
      (fun b => !isAsciiWhitespace b) = word := by
  obtain ⟨c, cs, rfl⟩ := exists_cons_of_ne_nil hne
  have hdrop : (before ++ c :: cs ++ after).dropWhile isAsciiWhitespace = c :: cs ++ after := by
    rw [append_assoc, dropWhile_append_of_pos hbefore, cons_append,
      dropWhile_cons_of_neg (by rw [hword c mem_cons_self]; decide)]
  have hword' : ∀ b ∈ c :: cs, (!isAsciiWhitespace b) = true := by
    intro b hb
    rw [hword b hb]
    rfl
  rw [hdrop, takeWhile_append_of_pos hword']
  cases after with
  | nil => rw [takeWhile_nil, append_nil]
  | cons a as =>
    rw [takeWhile_cons_of_neg (by rw [hafter a rfl]; decide), append_nil]

theorem words_of_token (item : List UInt8) : ∃ before after, item = before ++
        (item.dropWhile isAsciiWhitespace).takeWhile (fun b => !isAsciiWhitespace b) ++ after ∧
      (∀ b ∈ before, isAsciiWhitespace b = true) ∧
      (∀ b ∈ (item.dropWhile isAsciiWhitespace).takeWhile (fun b => !isAsciiWhitespace b),
        isAsciiWhitespace b = false) ∧
      ∀ b ∈ after.head?, isAsciiWhitespace b = true := by
  refine ⟨item.takeWhile isAsciiWhitespace,
    (item.dropWhile isAsciiWhitespace).dropWhile (fun b => !isAsciiWhitespace b), ?_, ?_, ?_, ?_⟩
  · rw [append_assoc, takeWhile_append_dropWhile, takeWhile_append_dropWhile]
  · exact all_eq_true.mp all_takeWhile
  · intro b hb
    have hnot := all_eq_true.mp all_takeWhile b hb
    simpa using hnot
  · intro b hb
    have hhead := head?_dropWhile_not (fun b => !isAsciiWhitespace b)
      (item.dropWhile isAsciiWhitespace)
    rw [Option.mem_def.mp hb] at hhead
    simpa using hhead

theorem toNat_lt_of_isTokenChar {c : Char} (h : isTokenChar c = true) : c.toNat < 128 := by
  unfold isTokenChar at h
  rw [Bool.or_eq_true] at h
  rcases h with h | h
  · have hlt := Utf8.toNat_lt_of_isAlphanum h
    omega
  · have hall : ("!#$%&'*+-.^_`|~".toList.all fun d => decide (d.toNat < 128)) = true := by decide
    rw [contains_iff_mem] at h
    exact of_decide_eq_true (all_eq_true.mp hall c h)

theorem isHopByHop_iff (name : HeaderName) : isHopByHop name ↔
      name = "transfer-encoding" ∨ name ∈ standardHopByHop.map String.toList := by
  unfold isHopByHop hopByHopNames
  rw [mem_map]
  constructor
  · rintro ⟨standard, hmem, rfl⟩
    rcases mem_cons.mp hmem with rfl | hmem
    · exact .inl rfl
    · exact .inr ⟨standard, hmem, rfl⟩
  · rintro (rfl | ⟨standard, hmem, rfl⟩)
    · exact ⟨_, mem_cons_self, rfl⟩
    · exact ⟨standard, mem_cons_of_mem _ hmem, rfl⟩

section

variable (h : IsHeaderName name)

include h

theorem ascii_of_isHeaderName : name ≠ [] ∧ ∀ c ∈ name, c.toNat < 128 := by
  obtain ⟨⟨hne, hall, -⟩, -⟩ := headerNameFromBytes_eq_ok_iff.mp h
  rw [String.toList_ofList] at hne hall
  exact ⟨hne, fun c hc => toNat_lt_of_isTokenChar (all_eq_true.mp hall c hc)⟩

theorem token_names_iff (token : List UInt8) :
    (token ≠ [] ∧ ∃ s, String.fromUTF8? ⟨token.toArray⟩ = some s ∧ toAsciiLowercase s = name) ↔
      token.map Utf8.lower = asBytes (String.ofList name) := by
  obtain ⟨hne, hascii⟩ := ascii_of_isHeaderName h
  constructor
  · rintro ⟨-, s, hs, rfl⟩
    have hbytes := Utf8.bytes_of_fromUTF8? hs
    rw [← hbytes, Utf8.map_lower_bytes]
    rfl
  · intro hlower
    have htoken : ∀ b ∈ token, b.toNat < 128 := by
      intro b hb
      refine Utf8.lt_of_lower_lt (Utf8.bytes_lt_of_ascii hascii _ ?_)
      have hmem : Utf8.lower b ∈ token.map Utf8.lower := mem_map_of_mem hb
      rw [hlower] at hmem
      exact hmem
    obtain ⟨s, hs⟩ := Utf8.exists_bytes_of_ascii htoken
    have hname : toAsciiLowercase s = name := by
      rw [← hs, Utf8.map_lower_bytes] at hlower
      exact String.ofList_inj.mp (Utf8.bytes_inj.mp hlower)
    refine ⟨?_, s, ?_, hname⟩
    · rintro rfl
      have hnil : s = "" := Utf8.bytes_inj.mp hs
      rw [hnil] at hname
      exact hne hname.symm
    · rw [← hs]
      exact Utf8.fromUTF8?_bytes s

theorem mem_parseConnectionTokens_iff (value : List UInt8) :
    name ∈ parseConnectionTokens value ↔ ∃ item ∈ value.splitOn 0x2c, ItemNames item name := by
  unfold parseConnectionTokens
  rw [mem_filterMap]
  refine exists_congr fun item => and_congr_right fun _ => ?_
  dsimp only
  constructor
  · intro hsome
    split at hsome
    · cases hsome
    · next htoken =>
      obtain ⟨s, hs, hname⟩ := Option.map_eq_some_iff.mp hsome
      obtain ⟨before, after, hitem, hbefore, hword, hafter⟩ := words_of_token item
      exact ⟨before, _, after, hitem, hbefore, hword, hafter,
        (token_names_iff h _).mp ⟨htoken, s, hs, hname⟩⟩
  · rintro ⟨before, word, after, rfl, hbefore, hword, hafter, hlower⟩
    obtain ⟨hword_ne, s, hs, hname⟩ := (token_names_iff h word).mpr hlower
    rw [token_of_words hbefore hword hword_ne hafter, if_neg hword_ne, hs, Option.map_some, hname]

theorem mem_stripSetOfHyper_iff (parts : RequestParts) :
    name ∈ stripSetOfHyper parts.headers ↔
      ConnectionLists parts.headers name ∨ name ∈ standardHopByHop.map String.toList := by
  unfold stripSetOfHyper hopByHopStripSet
  rw [mem_append, flatMap_map, mem_flatMap]
  refine or_congr_left (exists_congr fun header => and_congr_right fun hheader => ?_)
  have hname := isHeaderName_of_mem_iter parts hheader
  rw [eqIgnoreAsciiCase_of_isHeaderName hname, eqIgnoreAsciiCase_of_isHeaderName hname]
  rw [← mem_parseConnectionTokens_iff h]
  simp only [Bool.or_eq_true, decide_eq_true_eq]
  split
  · next hlist => exact ⟨fun hmem => ⟨hlist, hmem⟩, fun hmem => hmem.2⟩
  · next hlist => exact ⟨fun hmem => (nomatch hmem), fun hmem => absurd hmem.1 hlist⟩

theorem isStandardHopByHop_iff :
    isStandardHopByHopHeader (String.ofList name) = true ↔
      name ∈ standardHopByHop.map String.toList := by
  unfold isStandardHopByHopHeader
  rw [any_eq_true, mem_map]
  refine exists_congr fun standard => and_congr_right fun hmem => ?_
  have hlower : toAsciiLowercase standard = standard.toList := by
    revert standard
    decide
  rw [eqIgnoreAsciiCase_of_isHeaderName h, hlower, decide_eq_true_eq]
  exact eq_comm

theorem shouldSkipHyperHeader_iff :
    shouldSkipHyperHeader (String.ofList name) false = true ↔
      name ∈ ["host".toList, "connection".toList, "proxy-connection".toList,
        "content-length".toList, "transfer-encoding".toList] := by
  have hlower : ∀ text ∈ ["host", "connection", "proxy-connection", "content-length",
      "transfer-encoding"], toAsciiLowercase text = text.toList := by decide
  simp only [forall_mem_cons, not_mem_nil, false_implies, implies_true, and_true]
    at hlower
  obtain ⟨h1, h2, h3, h4, h5⟩ := hlower
  unfold shouldSkipHyperHeader
  simp only [eqIgnoreAsciiCase_of_isHeaderName h, h1, h2, h3, h4, h5, Bool.not_false, if_true,
    Bool.or_eq_true, decide_eq_true_eq, mem_cons, not_mem_nil, or_false, or_assoc]

theorem skipsHyper_iff (parts : RequestParts)
    (hws : isWsUpgradeHyper parts.headers = false) :
    skipsHyper parts.headers name = true ↔
      ConnectionBound parts.headers name ∨ name ∈ ownNames := by
  unfold skipsHyper
  rw [hws, not_pseudo_of_isHeaderName h, Bool.false_or, Bool.or_eq_true,
    shouldSkipHyperHeader_iff h]
  unfold shouldStripHopByHop
  rw [if_neg Bool.false_ne_true, Bool.or_eq_true, isStandardHopByHop_iff h, contains_iff_mem,
    toAsciiLowercase_of_isHeaderName h, mem_stripSetOfHyper_iff h parts]
  unfold ConnectionBound ownNames
  rw [isHopByHop_iff]
  have hconnection : name = "connection".toList → name ∈ standardHopByHop.map String.toList := by
    rintro rfl
    decide
  have hproxy : name = "proxy-connection".toList →
      name ∈ standardHopByHop.map String.toList := by
    rintro rfl
    decide
  constructor
  · rintro (hskip | hstandard | hlisted | hstandard)
    · simp only [mem_cons, not_mem_nil, or_false] at hskip
      rcases hskip with hname | hname | hname | hname | hname
      · exact .inr (hname ▸ mem_cons_self)
      · exact .inl (.inl (.inr (hconnection hname)))
      · exact .inl (.inl (.inr (hproxy hname)))
      · exact .inr (hname ▸ mem_cons_of_mem _ mem_cons_self)
      · exact .inl (.inl (.inl hname))
    · exact .inl (.inl (.inr hstandard))
    · exact .inl (.inr hlisted)
    · exact .inl (.inl (.inr hstandard))
  · rintro ((((hname | hstandard) | hlisted)) | hown)
    · exact .inl (by rw [hname]; decide)
    · exact .inr (.inl hstandard)
    · exact .inr (.inr (.inl hlisted))
    · refine .inl ?_
      rcases mem_cons.mp hown with rfl | hown
      · decide
      · rw [mem_singleton.mp hown]
        decide

end

theorem strips_iff_not_upgrade (parts : RequestParts) :
    StripsConnectionHeaders parts.headers (buildUpstreamHeadersFromHyper parts.headers) ↔
      isWsUpgradeHyper parts.headers = false := by
  constructor
  · intro h
    by_contra hnot
    have hws : isWsUpgradeHyper parts.headers = true := by simpa using hnot
    obtain ⟨value, hvalue, -⟩ := exists_websocket_of_isWsUpgradeHyper hws
    have hiter := (HeaderMap.mem_getAll_iff parts.wf.nodup).mp hvalue
    have hkept := upgrade_kept_by_hyper hws
    have hforwarded : ("upgrade".toList, value)
        ∈ (buildUpstreamHeadersFromHyper parts.headers).iter := by
      rw [iter_upstreamFromHyper]
      refine mem_filter.mpr ⟨hiter, ?_⟩
      rw [hkept]
      rfl
    refine h.stripped _ hforwarded (.inl ?_)
    exact ⟨"upgrade", by decide, rfl⟩
  · intro hws
    have hskip := fun {name} (h : IsHeaderName name) => skipsHyper_iff h parts hws
    refine ⟨fun header hheader hbound => ?_, fun name hname hbound hown => ?_, ?_⟩
    · rw [iter_upstreamFromHyper] at hheader
      obtain ⟨hiter, hkept⟩ := mem_filter.mp hheader
      have hdropped := (hskip (isHeaderName_of_mem_iter parts hiter)).mpr (.inl hbound)
      rw [hdropped] at hkept
      cases hkept
    · rw [buildUpstreamHeadersFromHyper_eq, HeaderMap.getAll_keep]
      have hkept : skipsHyper parts.headers name = false := by
        rw [← Bool.not_eq_true, hskip (parts.names name hname)]
        exact not_or.mpr ⟨hbound, hown⟩
      rw [hkept]
      rfl
    · rw [iter_upstreamFromHyper]
      exact filter_sublist

/-- The headers of the connection are stripped from a request that the pipeline does not treat as an
upgrade exactly if the filter does not treat it as one either. -/
theorem strips_connection_headers_iff (parts : RequestParts) :
    (pipelineWsUpgrade parts.headers = false →
        StripsConnectionHeaders parts.headers (buildUpstreamHeadersFromHyper parts.headers)) ↔
      (isWsUpgradeHyper parts.headers = true → pipelineWsUpgrade parts.headers = true) := by
  rw [strips_iff_not_upgrade]
  cases isWsUpgradeHyper parts.headers <;> cases pipelineWsUpgrade parts.headers <;> decide

namespace Sample

def upgradeOnly : RequestParts :=
  parts [("connection", [asBytes "close"]), ("upgrade", [asBytes "websocket"])]
    ⟨by decide, by decide⟩ (by decide)

end Sample

/-- The pipeline handles the request as plain HTTP, and `Connection` and `Upgrade` are forwarded. -/
theorem connection_headers_forwarded :
    pipelineWsUpgrade Sample.upgradeOnly.headers = false ∧
      buildUpstreamHeadersFromHyper Sample.upgradeOnly.headers
        = [("connection".toList, [asBytes "close"]), ("upgrade".toList, [asBytes "websocket"])] ∧
      ¬ StripsConnectionHeaders Sample.upgradeOnly.headers
        (buildUpstreamHeadersFromHyper Sample.upgradeOnly.headers) := by
  refine ⟨by decide, by decide, fun h => ?_⟩
  refine h.stripped ("upgrade", asBytes "websocket") ?_ (.inl ⟨"upgrade", by decide, rfl⟩)
  decide

end AiProxy.Http
