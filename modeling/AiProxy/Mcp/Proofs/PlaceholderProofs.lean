import AiProxy.Mcp.Proofs.CurlProofs

/-!
# One placeholder, one value

A placeholder is found again by its source, so that two values share one exactly if they were
registered for the same source and the same base (or for two bases that came to the same name).
-/

namespace AiProxy.Mcp

open Option List
open Json (Bytes Value)
variable {N : Type}

section Names

variable {ps ps' : Placeholders} {base source : Text}

structure Placeholders.Names (ps : Placeholders) (base source name : Text) : Prop where
  registered : ps.byName name = some source
  tried : ∃ m, name = candidate base m ∧ ps.Reaches base source m

theorem byName_mono (h : ps.items <+: ps'.items) {name : Text} {s : Text}
    (hname : ps.byName name = some s) : ps'.byName name = some s := by
  obtain ⟨more, hmore⟩ := h
  rw [Placeholders.byName, map_eq_some_iff] at hname ⊢
  obtain ⟨item, hfound, rfl⟩ := hname
  exact ⟨item, by rw [← hmore, find?_append, hfound]; rfl, rfl⟩

theorem Placeholders.Names.mono (hg : ps.items <+: ps'.items) {name : Text}
    (h : ps.Names base source name) : ps'.Names base source name := by
  obtain ⟨m, hm, hreaches⟩ := h.tried
  refine ⟨byName_mono hg h.registered, m, hm, fun j hj => ?_⟩
  obtain ⟨other, hother, hne⟩ := hreaches j hj
  exact ⟨other, byName_mono hg hother, hne⟩

theorem Placeholders.Names.unique {name name' : Text} (h : ps.Names base source name)
    (h' : ps.Names base source name') : name = name' := by
  obtain ⟨m, rfl, hm⟩ := h.tried
  obtain ⟨m', rfl, hm'⟩ := h'.tried
  rcases Nat.lt_trichotomy m m' with hlt | rfl | hlt
  · obtain ⟨other, hother, hne⟩ := hm' m hlt
    exact absurd (Option.some.inj (hother.symm.trans h.registered)) hne
  · rfl
  · obtain ⟨other, hother, hne⟩ := hm m' hlt
    exact absurd (Option.some.inj (hother.symm.trans h'.registered)) hne

theorem register_names (ps : Placeholders) (base source : Text) :
    ps.items <+: (ps.register base source).2.items ∧
      (ps.register base source).2.Names base source (ps.register base source).1 := by
  obtain ⟨m, hm, hreaches, hfree⟩ :=
    freeName_spec (ps.items.length + 1) (reaches_zero ps base source) (by omega)
  have hname : ps.freeName base source (ps.items.length + 1) base 2 = candidate base m := hm
  rw [Placeholders.register, hname]
  rcases hfree with hnone | hsome
  · rw [hnone]
    have hgrows : ps.items <+: ps.items ++ [⟨candidate base m, source⟩] := prefix_append _ _
    refine ⟨hgrows, ?_, m, rfl, fun j hj => ?_⟩
    · rw [Placeholders.byName, map_eq_none_iff] at hnone
      rw [Placeholders.byName, find?_append, hnone]
      simp
    · obtain ⟨other, hother, hne⟩ := hreaches j hj
      exact ⟨other, byName_mono hgrows hother, hne⟩
  · rw [hsome]
    exact ⟨prefix_refl _, hsome, m, rfl, hreaches⟩

end Names

/-! ## The requests of an export -/

def Exporting.after (st : Exporting N) (requests : List (PlaceholderRequest N)) : Exporting N :=
  requests.foldl (fun st q => (st.marker q.base q.source q.original).2) st

theorem Exporting.after_append (st : Exporting N) (qs qs' : List (PlaceholderRequest N)) :
    st.after (qs ++ qs') = (st.after qs).after qs' := foldl_append

section Export

variable {p : Platform N} {r : Redactor}
variable {parseUrl : Text → Except Text ParsedUrl}

theorem exportPairs_after : ∀ (pairs : List (Text × Text)) (st : Exporting N),
    (exportPairs p r pairs st).2 = st.after (queryRequests p r pairs) := by
  intro pairs
  induction pairs with
  | nil => exact fun _ => rfl
  | cons pair pairs ih =>
    intro st
    rw [exportPairs, ih]
    conv_rhs => rw [queryRequests, filter_cons]
    split
    · rfl
    · rfl

theorem exportUrl_after {url : Text} {st : Exporting N} {result : Text × Exporting N}
    (hok : exportUrl p r parseUrl url false st = .ok result) :
    result.2 = st.after (urlRequests p r parseUrl url) := by
  rw [exportUrl, if_neg Bool.false_ne_true] at hok
  rw [urlRequests]
  cases hparse : parseUrl url with
  | error error =>
    rw [hparse] at hok
    cases hok
  | ok parsed =>
    rw [hparse] at hok
    dsimp only at hok ⊢
    split at hok
    · rename_i hempty
      obtain rfl := Except.ok.inj hok
      rw [hempty]
      rfl
    · obtain rfl := Except.ok.inj hok
      exact exportPairs_after parsed.queryPairs st

theorem exportHeaders_after : ∀ (headers : List HeaderEntry) (st : Exporting N),
    (exportHeaders p r headers false st).2.2 = st.after (headerRequests p r headers) := by
  intro headers
  induction headers with
  | nil => exact fun _ => rfl
  | cons header headers ih =>
    intro st
    rw [exportHeaders, headerRequests, filter_cons]
    by_cases hskip : shouldSkipHeader header = true
    · rw [hskip]
      exact ih st
    · rw [if_neg hskip, Bool.eq_false_iff.mpr hskip, Bool.not_false, Bool.true_and]
      rw [ih, exportHeaderValue, if_neg Bool.false_ne_true]
      split
      · rfl
      · rfl

theorem replaceJsonPlaceholders_after (v : Value N) (path : Text) (st : Exporting N) :
    (replaceJsonPlaceholders p r v path st).2 = st.after (jsonRequests p r v path) := by
  induction v using Value.ind
    (I := fun items => ∀ index path st,
      (replaceItems p r items index path st).2 = st.after (itemsRequests p r items index path))
    (M := fun members => ∀ path st,
      (replaceMembers p r members path st).2 = st.after (membersRequests p r members path))
    generalizing path st with
  | null | bool b | number n | nil | noMembers => rfl
  | string s =>
    rw [replaceJsonPlaceholders, jsonRequests]
    split
    · rfl
    · rfl
  | array items ih =>
    rw [replaceJsonPlaceholders, jsonRequests]
    exact ih 0 path st
  | object members ih =>
    rw [replaceJsonPlaceholders, jsonRequests]
    exact ih path st
  | cons item items ihv ih => rw [replaceItems, itemsRequests, Exporting.after_append, ih, ihv]
  | member key child members ihv ih =>
    rw [replaceMembers, membersRequests, Exporting.after_append, ih, replaceMember, memberRequests]
    split
    · rw [append_assoc]
      rfl
    · rw [ihv]

theorem exportText_after (text : Text) (st : Exporting N) :
    (exportText p r text false st).2 = st.after (textRequests p r text) := by
  rw [exportText, if_neg Bool.false_ne_true, textRequests]
  cases p.fromStr text with
  | some value => exact replaceJsonPlaceholders_after value _ st
  | none =>
    dsimp only
    split
    · rfl
    · rfl

theorem exportBodyIfGranted_after (permissions : CurlPermissions) {request : CurlRequest}
    (hraw : request.raw = false) (body : Option Bytes) (st : Exporting N) :
    (exportBodyIfGranted p r permissions request body st).exporting =
      st.after (bodyRequests p r permissions request body) := by
  cases body with
  | none => rfl
  | some body =>
    rw [exportBodyIfGranted, bodyRequests, map_some, isExported, hraw]
    cases request.includeBody with
    | false => rfl
    | true =>
      cases permissions.readBodies with
      | false => rfl
      | true =>
        rw [Bool.not_true, exportBody]
        by_cases hlarge : maxInlineBodyBytes < body.length
        · rw [if_pos hlarge, decide_eq_false (not_le.mpr hlarge)]
          rfl
        rw [if_neg hlarge, decide_eq_true (not_lt.mp hlarge)]
        cases hutf8 : String.fromUTF8? ⟨body.toArray⟩ with
        | none => rfl
        | some s =>
          rw [isNone_some, isSome_some]
          cases body with
          | nil => rfl
          | cons b bs =>
            rw [if_neg (cons_ne_nil b bs)]
            exact exportText_after _ st

/-! ## Names and requests -/

/-- Each value was replaced by the name that its source has for its base. -/
def Answers (ps : Placeholders) (a : Replacement N) (q : PlaceholderRequest N) : Prop :=
  a.original = q.original ∧ ps.Names q.base q.source a.name

structure Exporting.Answered (st : Exporting N) (requests : List (PlaceholderRequest N)) : Prop where
  request : ∀ a ∈ st.replaced, ∃ q ∈ requests, Answers st.placeholders a q
  replacement : ∀ q ∈ requests, ∃ a ∈ st.replaced, Answers st.placeholders a q

theorem Exporting.Answered.marker {st : Exporting N} {done : List (PlaceholderRequest N)}
    (h : st.Answered done) (q : PlaceholderRequest N) :
    (st.marker q.base q.source q.original).2.Answered (done ++ [q]) := by
  obtain ⟨hgrows, hnames⟩ := register_names st.placeholders q.base q.source
  have hmono : ∀ {a : Replacement N} {q' : PlaceholderRequest N}, Answers st.placeholders a q' →
      Answers (st.marker q.base q.source q.original).2.placeholders a q' :=
    fun ha => ⟨ha.1, ha.2.mono hgrows⟩
  refine ⟨fun a ha => ?_, fun q' hq' => ?_⟩
  · rcases mem_append.mp ha with ha | ha
    · obtain ⟨q', hq', haq⟩ := h.request a ha
      exact ⟨q', mem_append_left _ hq', hmono haq⟩
    · rw [mem_singleton.mp ha]
      exact ⟨q, mem_append_right _ (mem_singleton_self q), rfl, hnames⟩
  · rcases mem_append.mp hq' with hq' | hq'
    · obtain ⟨a, ha, haq⟩ := h.replacement q' hq'
      exact ⟨a, mem_append_left _ ha, hmono haq⟩
    · rw [mem_singleton.mp hq']
      exact ⟨_, mem_append_right _ (mem_singleton_self _), rfl, hnames⟩

theorem Exporting.Answered.after (requests : List (PlaceholderRequest N)) : ∀ {st : Exporting N}
    {done : List (PlaceholderRequest N)}, st.Answered done →
    (st.after requests).Answered (done ++ requests) := by
  induction requests with
  | nil =>
    intro st done h
    rw [append_nil]
    exact h
  | cons q requests ih =>
    intro st done h
    have hrest := ih (h.marker q)
    rw [append_assoc] at hrest
    exact hrest

theorem oneValue_of_eq {replaced : List (Replacement N)}
    (h : ∀ a ∈ replaced, ∀ b ∈ replaced, a.name = b.name → a.original = b.original) :
    OneValue replaced := by
  refine ⟨h, fun name => ((replaced.find? fun a => a.name = name).map (·.original)).getD (.text []),
    fun a ha => ?_⟩
  have hsome : (replaced.find? fun b => b.name = a.name).isSome := by
    rw [find?_isSome]
    exact ⟨a, ha, decide_eq_true rfl⟩
  obtain ⟨b, hb⟩ := isSome_iff_exists.mp hsome
  dsimp only
  rw [hb, map_some]
  have hname := find?_some hb
  rw [decide_eq_true_eq] at hname
  exact h b (mem_of_find?_eq_some hb) a ha hname

variable {nonce : Text} {permissions : CurlPermissions} {request : CurlRequest} {session : CurlSession}
variable {out : CurlExport N}

theorem exportSessionAsCurl_after (hraw : request.raw = false)
    (hok : exportSessionAsCurl p r parseUrl nonce permissions request session = .ok out) :
    (⟨out.placeholders, out.replaced⟩ : Exporting N) = Exporting.after ⟨.new nonce, []⟩
      (placeholderRequests p r parseUrl permissions request session) := by
  obtain ⟨headers, url, -, hheaders, hurl, -, hend, -⟩ := exportSessionAsCurl_ok hok
  rw [hraw] at hurl hend
  rw [hend, exportBodyIfGranted_after permissions hraw, exportHeaders_after, exportUrl_after hurl,
    placeholderRequests, hheaders, getD_some, Exporting.after_append, Exporting.after_append]

/-- Equal values for equal sources are enough; and where the bases are equal too they are needed. -/
theorem one_placeholder_one_value (hraw : request.raw = false)
    (hok : exportSessionAsCurl p r parseUrl nonce permissions request session = .ok out) :
    let requests := placeholderRequests p r parseUrl permissions request session
    ((∀ a ∈ requests, ∀ b ∈ requests, a.source = b.source → SharesName a.base b.base →
        a.original = b.original) → OneValue out.replaced) ∧
    (OneValue out.replaced → ∀ a ∈ requests, ∀ b ∈ requests, a.source = b.source → a.base = b.base →
      a.original = b.original) := by
  intro requests
  have hafter := exportSessionAsCurl_after hraw hok
  have hstart : Exporting.Answered (N := N) ⟨.new nonce, []⟩ [] :=
    ⟨forall_mem_nil _, forall_mem_nil _⟩
  have hanswered := hstart.after requests
  rw [← hafter] at hanswered
  constructor
  · intro hequal
    refine oneValue_of_eq fun a ha b hb hname => ?_
    obtain ⟨q, hq, haq, hqname⟩ := hanswered.request a ha
    obtain ⟨q', hq', hbq, hqname'⟩ := hanswered.request b hb
    obtain ⟨i, hi, -⟩ := hqname.tried
    obtain ⟨j, hj, -⟩ := hqname'.tried
    have hsource : q.source = q'.source := by
      have hsame := hqname.registered
      rw [hname, hqname'.registered] at hsame
      exact (Option.some.inj hsame).symm
    rw [haq, hbq]
    exact hequal q hq q' hq' hsource ⟨i, j, by rw [← hi, ← hj, hname]⟩
  · intro hone q hq q' hq' hsource hbase
    obtain ⟨a, ha, haq, hqname⟩ := hanswered.replacement q hq
    obtain ⟨b, hb, hbq, hqname'⟩ := hanswered.replacement q' hq'
    rw [← hsource, ← hbase] at hqname'
    rw [← haq, ← hbq]
    exact hone.1 a ha b hb (hqname.unique hqname')

end Export

namespace Sample

def parsePairs (pairs : List (Text × Text)) (_ : Text) : Except Text ParsedUrl :=
  .ok ⟨"https://api.example.com/", pairs⟩

def plainSession : CurlSession := { session with headers := some [] }

theorem placeholderRequests_pairs (pairs : List (Text × Text)) :
    placeholderRequests platform redactor (parsePairs pairs) permissions request plainSession =
      queryRequests platform redactor pairs := by
  show queryRequests platform redactor pairs ++ [] ++ [] = _
  rw [append_nil, append_nil]

def tokens (value : Text) : List (Text × Text) :=
  [("token", "a"), ("token", value)]

def tokenRequest (value : Text) : PlaceholderRequest Nat :=
  ⟨"AIPROXY_QUERY_TOKEN", "query:token", .text value⟩

theorem export_tokens (value : Text) : ∃ out, exportSessionAsCurl platform redactor
    (parsePairs (tokens value)) exportNonce permissions request plainSession = .ok out := ⟨_, rfl⟩

end Sample

/-- Two different tokens get the same variable. -/
theorem repeated_token_shares_placeholder :
    ∃ out, exportSessionAsCurl Sample.platform Sample.redactor
        (Sample.parsePairs (Sample.tokens "b")) Sample.exportNonce Sample.permissions
        Sample.request Sample.plainSession = .ok out ∧
      out.replaced = [⟨"AIPROXY_QUERY_TOKEN", .text "a"⟩,
        ⟨"AIPROXY_QUERY_TOKEN", .text "b"⟩] ∧ ¬ OneValue out.replaced := by
  obtain ⟨out, hok⟩ := Sample.export_tokens "b"
  have hafter := exportSessionAsCurl_after rfl hok
  rw [Sample.placeholderRequests_pairs] at hafter
  have hreplaced : out.replaced = [⟨"AIPROXY_QUERY_TOKEN", .text "a"⟩,
      ⟨"AIPROXY_QUERY_TOKEN", .text "b"⟩] := congrArg Exporting.replaced hafter
  refine ⟨out, hok, hreplaced, fun hone => ?_⟩
  rw [hreplaced] at hone
  have hsame := hone.1 _ mem_cons_self _ (mem_cons_of_mem _ mem_cons_self) rfl
  exact absurd (Original.text.inj hsame) (by decide)

theorem one_placeholder_one_value_token :
    ∃ out, exportSessionAsCurl Sample.platform Sample.redactor
        (Sample.parsePairs (Sample.tokens "a")) Sample.exportNonce Sample.permissions
        Sample.request Sample.plainSession = .ok out ∧ OneValue out.replaced := by
  obtain ⟨out, hok⟩ := Sample.export_tokens "a"
  refine ⟨out, hok, (one_placeholder_one_value rfl hok).1 ?_⟩
  rw [Sample.placeholderRequests_pairs]
  intro a ha b hb _ _
  have hall : ∀ q ∈ [Sample.tokenRequest "a", Sample.tokenRequest "a"],
      q = Sample.tokenRequest "a" := fun q hq => (mem_pair.mp hq).elim id id
  rw [hall a ha, hall b hb]

end AiProxy.Mcp
