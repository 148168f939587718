import AiProxy.Mcp.Proofs.ExtractionProofs
import AiProxy.Mcp.Proofs.MarkerProofs

/-!
# The exported command

Every text that the export puts together has its markers between captured texts, so that the shell
reads the command as the arguments it is to have.
-/

namespace AiProxy.Mcp

open List
open Json (Bytes Value)
open Utf8 (chars encode)
open Shell (Word Adds ofText)

variable {N : Type} {nonce : Text}
variable {base : Text} {st : Exporting N}

theorem isEnvName_numbered (h : IsEnvName base) (n : Nat) :
    IsEnvName (base ++ '_' :: natText n) := by
  have hdigit : ∀ c ∈ natText n, c.isDigit = true := fun c hc => Decimal.isDigit_of_mem_repr hc
  have hunderscore : '_' ∉ natText n := fun hmem => absurd (hdigit _ hmem) (by decide)
  obtain ⟨c, cs, hcons⟩ : ∃ c cs, natText n = c :: cs :=
    exists_cons_of_ne_nil (Decimal.toList_repr_ne_nil n)
  refine h.extend (isValidEnvName_iff.mpr ⟨Decimal.toList_repr_ne_nil n, fun d hd => ?_⟩)
    (.of_not_mem hunderscore) ⟨c, cs, hcons, ?_⟩
  · rw [hdigit d hd, Bool.or_true, Bool.true_or]
  · rintro rfl
    rw [hcons] at hunderscore
    exact hunderscore mem_cons_self

theorem isEnvName_candidate (h : IsEnvName base) : ∀ m, IsEnvName (candidate base m)
  | 0 => h
  | m + 1 => isEnvName_numbered h (m + 2)

theorem candidate_inj {i j : Nat} (h : candidate base i = candidate base j) : i = j := by
  have hself : ∀ t : Text, base ≠ base ++ '_' :: t := by
    intro t heq
    have := congrArg List.length heq
    rw [length_append, length_cons] at this
    omega
  cases i with
  | zero =>
    cases j with
    | zero => rfl
    | succ j => exact absurd h (hself _)
  | succ i =>
    cases j with
    | zero => exact absurd h.symm (hself _)
    | succ j =>
      have hdigits := (List.cons.inj (append_cancel_left h)).2
      have := Decimal.toList_repr_inj hdigits
      omega

section Names

variable {ps : Placeholders} {source : Text}

/-- The name has been given to another source. -/
def Placeholders.TakenByOther (ps : Placeholders) (source name : Text) : Prop :=
  ∃ other, ps.byName name = some other ∧ other ≠ source

/-- The search for a name gets as far as this candidate. -/
def Placeholders.Reaches (ps : Placeholders) (base source : Text) (k : Nat) : Prop :=
  ∀ j < k, ps.TakenByOther source (candidate base j)

theorem reaches_zero (ps : Placeholders) (base source : Text) : ps.Reaches base source 0 :=
  fun j hj => absurd hj (Nat.not_lt_zero j)

theorem Placeholders.Reaches.le {k : Nat} (h : ps.Reaches base source k) : k ≤ ps.items.length := by
  have hnodup : ((List.range k).map (candidate base)).Nodup :=
    nodup_range.map fun _ _ => candidate_inj
  have hsubset : (List.range k).map (candidate base) ⊆ ps.items.map (·.name) := by
    intro name hname
    obtain ⟨j, hj, rfl⟩ := mem_map.mp hname
    obtain ⟨other, hother, -⟩ := h j (mem_range.mp hj)
    obtain ⟨item, hitem, heq⟩ := Placeholders.byName_isSome.mp (by rw [hother]; rfl)
    exact mem_map.mpr ⟨item, hitem, heq⟩
  have hlen := (subperm_of_subset hnodup hsubset).length_le
  rwa [length_map, length_map, length_range] at hlen

theorem freeName_spec : ∀ (fuel : Nat) {k : Nat}, ps.Reaches base source k →
    ps.items.length < k + fuel →
    ∃ m, ps.freeName base source fuel (candidate base k) (k + 2) = candidate base m ∧
      ps.Reaches base source m ∧
      (ps.byName (candidate base m) = none ∨ ps.byName (candidate base m) = some source) := by
  intro fuel
  induction fuel with
  | zero =>
    intro k hk hlt
    have := hk.le
    omega
  | succ fuel ih =>
    intro k hk hlt
    rw [Placeholders.freeName]
    cases hname : ps.byName (candidate base k) with
    | none => exact ⟨k, rfl, hk, .inl hname⟩
    | some existing =>
      dsimp only
      by_cases hsame : existing = source
      · rw [if_pos hsame]
        exact ⟨k, rfl, hk, .inr (by rw [hname, hsame])⟩
      · rw [if_neg hsame]
        have hnext : ps.Reaches base source (k + 1) := by
          intro j hj
          rcases Nat.lt_succ_iff_lt_or_eq.mp hj with hj | rfl
          · exact hk j hj
          · exact ⟨existing, hname, hsame⟩
        exact ih hnext (by omega)

end Names

/-- Later placeholders of the same export. -/
structure Placeholders.Grows (nonce : Text) (ps ps' : Placeholders) : Prop where
  sound : ps'.Sound nonce
  items : ps.items <+: ps'.items

variable {ps ps' : Placeholders}

theorem Placeholders.Sound.grows (h : ps.Sound nonce) : ps.Grows nonce ps := ⟨h, prefix_refl _⟩

theorem Placeholders.Grows.trans {ps'' : Placeholders} (h : ps.Grows nonce ps')
    (h' : ps'.Grows nonce ps'') : ps.Grows nonce ps'' := ⟨h'.sound, h.items.trans h'.items⟩

theorem register_spec (hs : ps.Sound nonce) (hbase : IsEnvName base)
    (source : Text) : ps.Grows nonce (ps.register base source).2 ∧
      (ps.register base source).2.Registered (ps.register base source).1 := by
  have hname : IsEnvName (ps.freeName base source (ps.items.length + 1) base 2) := by
    obtain ⟨m, hm, -⟩ := freeName_spec (ps.items.length + 1) (reaches_zero ps base source) (by omega)
    exact hm ▸ isEnvName_candidate hbase m
  rw [Placeholders.register]
  generalize ps.freeName base source (ps.items.length + 1) base 2 = name at hname
  cases hfound : ps.byName name with
  | some existing =>
    exact ⟨hs.grows, Placeholders.byName_isSome.mp (by rw [hfound]; rfl)⟩
  | none =>
    refine ⟨⟨⟨hs.markerPrefix, ?_⟩, prefix_append _ _⟩,
      ⟨⟨name, source⟩, mem_append_right _ (mem_singleton_self _), rfl⟩⟩
    exact forall_mem_append.mpr ⟨hs.names, forall_mem_singleton.mpr hname⟩

theorem Placeholders.Grows.markerOf (hs : ps.Sound nonce)
    (h : ps.Grows nonce ps') (name : Text) : ps'.markerOf name = ps.markerOf name := by
  rw [Placeholders.markerOf, Placeholders.markerOf, hs.markerPrefix, h.sound.markerPrefix]

variable {name : Text}

theorem Marked.registered {t : Text} {w : Word} (h : Marked nonce ps t w)
    (hname : .param name ∈ w) : ps.Registered name := by
  induction h with
  | nil => cases hname
  | char fresh rest ih =>
    rcases mem_cons.mp hname with heq | hname
    · cases heq
    · exact ih hname
  | marker registered rest ih =>
    rcases mem_cons.mp hname with heq | hname
    · cases heq
      exact registered
    · exact ih hname

/-- What follows does not continue a nonce. -/
def Boundary (nonce rest : Text) : Prop := ∀ c, rest.head? = some c → c ∉ nonce

/-- A text that keeps its markers whatever follows, if that begins outside a nonce, and whatever is
registered later. -/
def IsMarked (nonce : Text) (ps : Placeholders) (t : Text) : Prop :=
  ∃ w, ∀ {ps' : Placeholders}, ps.Grows nonce ps' → ∀ {rest : Text} {v : Word},
    Boundary nonce rest → Marked nonce ps' rest v → Marked nonce ps' (t ++ rest) (w ++ v)

namespace IsMarked

variable {t u : Text}

theorem marked (h : IsMarked nonce ps t) :
    ∃ w, ∀ {ps' : Placeholders}, ps.Grows nonce ps' → Marked nonce ps' t w := by
  obtain ⟨w, hw⟩ := h
  refine ⟨w, fun hg => ?_⟩
  have hall := hw hg (fun c hc => absurd hc (by simp)) .nil
  rwa [append_nil, append_nil] at hall

theorem mono (h : IsMarked nonce ps t) (hg : ps.Grows nonce ps') : IsMarked nonce ps' t := by
  obtain ⟨w, hw⟩ := h
  exact ⟨w, fun hg' => hw (hg.trans hg')⟩

theorem captured (h : ¬ nonce <:+: t) : IsMarked nonce ps t := by
  refine ⟨ofText t, fun {ps'} _ {rest v} hrest hv => ?_⟩
  induction t with
  | nil => exact hv
  | cons c t ih =>
    refine .char (fun hbegun => ?_) (ih fun hin => h (hin.trans (suffix_cons c t).isInfix))
    rcases prefix_or_prefix_of_prefix hbegun (prefix_append (c :: t) rest) with hin | hin
    · exact h hin.isInfix
    · -- The nonce would go on into what follows.
      obtain ⟨more, rfl⟩ := hin
      obtain ⟨rest', hrest'⟩ := hbegun
      rw [append_assoc] at hrest'
      have hcut := append_cancel_left hrest'
      cases more with
      | nil =>
        rw [append_nil] at h
        exact h (infix_refl _)
      | cons d more =>
        rw [← hcut] at hrest
        exact hrest d rfl (mem_append_right _ mem_cons_self)

theorem marker (hs : ps.Sound nonce) (h : ps.Registered name) :
    IsMarked nonce ps (ps.markerOf name) := by
  refine ⟨[.param name], fun {ps'} hg {rest v} _ hv => ?_⟩
  obtain ⟨item, hitem, rfl⟩ := h
  rw [← hg.markerOf hs]
  exact .marker ⟨item, hg.items.subset hitem, rfl⟩ hv

theorem separated (hn : IsNonce nonce) (ht : IsMarked nonce ps t) {c : Char}
    (hc : isLowerHex c = false) (hu : IsMarked nonce ps u) : IsMarked nonce ps (t ++ c :: u) := by
  obtain ⟨w, hw⟩ := ht
  obtain ⟨v, hv⟩ := hu
  have hmem : c ∉ nonce := hn.not_mem hc
  refine ⟨w ++ .char c :: v, fun {ps'} hg {rest x} hrest hx => ?_⟩
  rw [append_assoc, append_assoc]
  refine hw hg (fun d hd => ?_) (.char (fun hbegun => ?_) (hv hg hrest hx))
  · obtain rfl := Option.some.inj hd
    exact hmem
  · obtain ⟨d, ds, rfl⟩ : ∃ d ds, nonce = d :: ds := by
      refine exists_cons_of_ne_nil fun hnil => ?_
      have := hn.length
      rw [hnil] at this
      cases this
    obtain ⟨rfl, -⟩ := cons_prefix_cons.mp hbegun
    exact hmem mem_cons_self

theorem nil (hn : IsNonce nonce) : IsMarked nonce ps [] := by
  refine captured fun hin => ?_
  have hlen := hn.length
  rw [infix_nil.mp hin] at hlen
  cases hlen

theorem cons (hn : IsNonce nonce) {c : Char} (hc : isLowerHex c = false)
    (hu : IsMarked nonce ps u) : IsMarked nonce ps (c :: u) := (nil hn).separated hn hc hu

theorem intercalate (hn : IsNonce nonce) {c : Char} (hc : isLowerHex c = false) {ts : List Text}
    (h : ∀ t ∈ ts, IsMarked nonce ps t) : IsMarked nonce ps ([c].intercalate ts) := by
  induction ts with
  | nil => exact nil hn
  | cons t ts ih =>
    cases ts with
    | nil =>
      rw [intercalate_singleton]
      exact h t mem_cons_self
    | cons u us =>
      exact (h t mem_cons_self).separated hn hc
        (ih fun x hx => h x (mem_cons_of_mem t hx))

end IsMarked

/-! ## The texts of the export -/

variable {p : Platform N} {r : Redactor}

section Export

variable (hn : IsNonce nonce)

/-- A step of the export: what it writes has its markers, and the placeholders have grown. -/
structure Writes (nonce : Text) (st : Exporting N) (result : Text × Exporting N) : Prop where
  grows : st.placeholders.Grows nonce result.2.placeholders
  marked : IsMarked nonce result.2.placeholders result.1

theorem Exporting.marker_writes (hs : st.placeholders.Sound nonce) (hbase : IsEnvName base)
    (source : Text) (original : Original N) :
    Writes nonce st (st.marker base source original) := by
  obtain ⟨hgrows, hregistered⟩ := register_spec hs hbase source
  exact ⟨hgrows, .marker hgrows.sound hregistered⟩

theorem Writes.of_captured (hs : st.placeholders.Sound nonce) {t : Text}
    (h : ¬ nonce <:+: t) : Writes nonce st (t, st) := ⟨hs.grows, .captured h⟩

theorem isEnvName_word {word : String} (h : word.toList.all (fun c => c.isUpper) = true)
    (hne : word.toList ≠ []) : IsEnvName word.toList := by
  rw [all_eq_true] at h
  obtain ⟨c, cs, hcons⟩ := exists_cons_of_ne_nil hne
  refine ⟨isValidEnvName_iff.mpr ⟨hne, fun c hc => ?_⟩, .of_not_mem fun hmem => ?_,
    ⟨c, cs, hcons, h c (hcons ▸ mem_cons_self)⟩⟩
  · rw [h c hc, Bool.true_or, Bool.true_or]
  · exact absurd (h _ hmem) (by decide)

theorem isEnvName_aiproxy : IsEnvName "AIPROXY" := isEnvName_word (by decide) (by decide)

theorem isEnvName_query : IsEnvName ("AIPROXY" ++ '_' :: "QUERY") :=
  isEnvName_aiproxy.extend (by decide) (.of_not_mem (by decide)) ⟨'Q', _, rfl, by decide⟩

theorem isEnvName_body : IsEnvName ("AIPROXY" ++ '_' :: "BODY") :=
  isEnvName_aiproxy.extend (by decide) (.of_not_mem (by decide)) ⟨'B', _, rfl, by decide⟩

theorem isEnvName_bodyValue : IsEnvName "AIPROXY_BODY_VALUE" :=
  isEnvName_body.extend (by decide) (.of_not_mem (by decide)) ⟨'V', _, rfl, by decide⟩

/-- The part is rendered with placeholders of the export, and is a word of the command. -/
def CommandPart.Lexes (nonce : Text) (ps : Placeholders) : CommandPart → Prop
  | .word text => text ≠ [] ∧ ∀ c ∈ text, Shell.isPlain c = true
  | .literal _ => True
  | .marked text ps' => ps'.Grows nonce ps ∧ ps'.Sound nonce ∧ IsMarked nonce ps' text

theorem CommandPart.lexes_word {text : Text} (h : text ≠ [])
    (hplain : text.all Shell.isPlain = true) : (CommandPart.word text).Lexes nonce ps :=
  ⟨h, all_eq_true.mp hplain⟩

theorem CommandPart.Lexes.mono (hg : ps.Grows nonce ps') :
    ∀ {part : CommandPart}, part.Lexes nonce ps → part.Lexes nonce ps'
  | .word _, h | .literal _, h => h
  | .marked _ _, h => ⟨h.1.trans hg, h.2⟩

include hn

theorem CommandPart.Lexes.adds :
    ∀ {part : CommandPart}, part.Lexes nonce ps → ∃ w, Adds (part.render .posix) w ∧
      (∀ name, .param name ∈ w → ps.Registered name) ∧
      ∀ env, Shell.expand env w = part.argument ps env
  | .word text, h =>
    ⟨ofText text, .plain h.1 h.2, fun name hname => absurd hname (by simp [ofText]),
      fun env => Shell.expand_ofText env text⟩
  | .literal text, _ =>
    ⟨ofText text, adds_quoteLiteral text, fun name hname => absurd hname (by simp [ofText]),
      fun env => Shell.expand_ofText env text⟩
  | .marked text ps', ⟨hg, hs, hm⟩ => by
    obtain ⟨w, hw⟩ := hm.marked
    exact ⟨w, (hw hs.grows).adds hn hs, fun name => (hw hg).registered,
      fun env => ((hw hg).expand hn hg.sound env).symm⟩

theorem lexes_all : ∀ {parts : List CommandPart}, (∀ part ∈ parts, part.Lexes nonce ps) →
    ∃ words, List.Forall₂ Adds (parts.map (CommandPart.render .posix)) words ∧
      (∀ w ∈ words, ∀ name, .param name ∈ w → ps.Registered name) ∧
      ∀ env, words.map (Shell.expand env) = parts.map (CommandPart.argument ps env) := by
  intro parts
  induction parts with
  | nil => exact fun _ => ⟨[], .nil, forall_mem_nil _, fun _ => rfl⟩
  | cons part parts ih =>
    intro h
    obtain ⟨w, hadds, hnames, hexpand⟩ := (h part mem_cons_self).adds hn
    obtain ⟨words, hrest, hrestNames, hrestExpand⟩ := ih fun q hq => h q (mem_cons_of_mem part hq)
    refine ⟨w :: words, .cons hadds hrest, ?_, fun env => ?_⟩
    · exact forall_mem_cons.mpr ⟨hnames, hrestNames⟩
    · rw [map_cons, map_cons, hexpand, hrestExpand]

theorem exportPairs_marked : ∀ (pairs : List (Text × Text)) {st : Exporting N},
    st.placeholders.Sound nonce →
    (∀ pair ∈ pairs, ¬ nonce <:+: encodeComponent pair.1 ∧ ¬ nonce <:+: encodeComponent pair.2) →
    st.placeholders.Grows nonce (exportPairs p r pairs st).2.placeholders ∧
      ∀ t ∈ (exportPairs p r pairs st).1,
        IsMarked nonce (exportPairs p r pairs st).2.placeholders t := by
  intro pairs
  induction pairs with
  | nil => exact fun hs _ => ⟨hs.grows, forall_mem_nil _⟩
  | cons pair pairs ih =>
    intro st hs hfresh
    obtain ⟨name, value⟩ := pair
    obtain ⟨hname, hvalue⟩ := hfresh (name, value) mem_cons_self
    have hrendered : Writes nonce st (if isReplaced p r name value then
        st.marker ("AIPROXY_QUERY_" ++ envSegment name) ("query:" ++ name) (.text value)
        else (encodeComponent value, st)) := by
      split
      · exact Exporting.marker_writes hs (isEnvName_segment isEnvName_query name) _ _
      · exact .of_captured hs hvalue
    obtain ⟨hgrows, htexts⟩ := ih hrendered.grows.sound fun q hq =>
      hfresh q (mem_cons_of_mem _ hq)
    rw [exportPairs]
    refine ⟨hrendered.grows.trans hgrows, forall_mem_cons.mpr ⟨?_, htexts⟩⟩
    exact (IsMarked.captured hname).separated hn rfl (hrendered.marked.mono hgrows)

theorem exportUrl_writes {parseUrl : Text → Except Text ParsedUrl} {url : Text} {raw : Bool}
    (hs : st.placeholders.Sound nonce) (hfresh : ∀ t ∈ urlTexts parseUrl url, ¬ nonce <:+: t)
    {result : Text × Exporting N}
    (hok : exportUrl p r parseUrl url raw st = .ok result) : Writes nonce st result := by
  have hurl : ¬ nonce <:+: url := hfresh url mem_cons_self
  rw [exportUrl] at hok
  by_cases hraw : raw = true
  · rw [if_pos hraw] at hok
    obtain rfl := Except.ok.inj hok
    exact .of_captured hs hurl
  rw [if_neg hraw] at hok
  rw [urlTexts] at hfresh
  cases hparse : parseUrl url with
  | error error =>
    rw [hparse] at hok
    cases hok
  | ok parsed =>
    rw [hparse] at hok hfresh
    dsimp only at hok hfresh
    by_cases hempty : parsed.queryPairs = []
    · rw [if_pos hempty] at hok
      obtain rfl := Except.ok.inj hok
      exact .of_captured hs hurl
    rw [if_neg hempty] at hok
    obtain rfl := Except.ok.inj hok
    have hpairs : ∀ pair ∈ parsed.queryPairs, ¬ nonce <:+: encodeComponent pair.1 ∧
        ¬ nonce <:+: encodeComponent pair.2 := by
      intro pair hpair
      constructor
      · exact hfresh _ (mem_cons_of_mem _ (mem_cons_of_mem _
          (mem_flatMap.mpr ⟨pair, hpair, mem_cons_self⟩)))
      · exact hfresh _ (mem_cons_of_mem _ (mem_cons_of_mem _
          (mem_flatMap.mpr ⟨pair, hpair, mem_cons_of_mem _ mem_cons_self⟩)))
    obtain ⟨hgrows, htexts⟩ := exportPairs_marked (p := p) (r := r) hn parsed.queryPairs hs hpairs
    have hbase : ¬ nonce <:+: parsed.base := hfresh _ (mem_cons_of_mem _ mem_cons_self)
    exact ⟨hgrows, (IsMarked.captured hbase).separated hn rfl (.intercalate hn rfl htexts)⟩

omit hn in
theorem exportHeaderValue_writes {header : HeaderEntry} {raw : Bool}
    (hs : st.placeholders.Sound nonce) (hvalue : ¬ nonce <:+: header.value) :
    Writes nonce st (exportHeaderValue p r header raw st) := by
  rw [exportHeaderValue]
  split
  · exact .of_captured hs hvalue
  split
  · exact Exporting.marker_writes hs (isEnvName_segment isEnvName_aiproxy _) _ _
  · exact .of_captured hs hvalue

theorem exportHeaders_lexes (raw : Bool) : ∀ (headers : List HeaderEntry)
    {st : Exporting N}, st.placeholders.Sound nonce →
    (∀ t ∈ headerTexts headers, ¬ nonce <:+: t) →
    st.placeholders.Grows nonce (exportHeaders p r headers raw st).2.2.placeholders ∧
      ∀ part ∈ (exportHeaders p r headers raw st).1,
        part.Lexes nonce (exportHeaders p r headers raw st).2.2.placeholders := by
  intro headers
  induction headers with
  | nil => exact fun hs _ => ⟨hs.grows, forall_mem_nil _⟩
  | cons header headers ih =>
    intro st hs hfresh
    have hname : ¬ nonce <:+: header.name := hfresh _ mem_cons_self
    have hvalue : ¬ nonce <:+: header.value := hfresh _ (mem_cons_of_mem _ mem_cons_self)
    have hrest : ∀ t ∈ headerTexts headers, ¬ nonce <:+: t := fun t ht =>
      hfresh t (mem_cons_of_mem _ (mem_cons_of_mem _ ht))
    rw [exportHeaders]
    split
    · exact ih hs hrest
    have hwrites : Writes nonce st (exportHeaderValue p r header raw st) :=
      exportHeaderValue_writes hs hvalue
    obtain ⟨hgrows, hparts⟩ := ih hwrites.grows.sound hrest
    refine ⟨hwrites.grows.trans hgrows,
      forall_mem_cons.mpr ⟨?_, forall_mem_cons.mpr ⟨⟨hgrows, hwrites.grows.sound, ?_⟩, hparts⟩⟩⟩
    · exact CommandPart.lexes_word (by decide) (by decide)
    · rw [append_assoc]
      exact (IsMarked.captured hname).separated hn rfl (.cons hn rfl hwrites.marked)

theorem plain_markerOf (hs : ps.Sound nonce)
    (h : ps.Registered name) : ∀ c ∈ ps.markerOf name, (c.isAlphanum || c == '_') = true := by
  obtain ⟨item, hitem, rfl⟩ := h
  have hname := (isValidEnvName_iff.mp (hs.names item hitem).valid).2
  have hlead : ∀ c ∈ "__AIPROXY_ENV_".toList, (c.isAlphanum || c == '_') = true :=
    all_eq_true.mp (by decide)
  have hhex : ∀ c, isLowerHex c = true → (c.isAlphanum || c == '_') = true := by
    intro c hc
    simp only [isLowerHex, Bool.or_eq_true, contains_iff_mem] at hc
    rcases hc with hdigit | hletter
    · simp [Char.isAlphanum, hdigit]
    · have hall : ∀ d ∈ "abcdef".toList, (d.isAlphanum || d == '_') = true :=
        all_eq_true.mp (by decide)
      exact hall c hletter
  intro c hc
  rw [Placeholders.markerOf, hs.markerPrefix] at hc
  simp only [mem_append] at hc
  rcases hc with (((hc | hc) | hc) | hc) | hc
  · exact hlead c hc
  · exact hhex c (hn.hex c hc)
  · rw [mem_singleton.mp hc]
    rfl
  · have hvalid := hname c hc
    simp only [Bool.or_eq_true] at hvalid
    show (c.isUpper || c.isLower || c.isDigit || c == '_') = true
    simp only [Bool.or_eq_true]
    exact hvalid.imp_left (Or.imp_left Or.inl)
  · have hall : ∀ d ∈ "__".toList, (d.isAlphanum || d == '_') = true := all_eq_true.mp (by decide)
    exact hall c hc

theorem jsonMarker_writes (hw : p.PlainWords) (hs : st.placeholders.Sound nonce)
    (hbase : IsEnvName base) (source : Text) (original : Original N) :
    Writes nonce st (p.toString (jsonText (st.marker base source original).1),
      (st.marker base source original).2) := by
  obtain ⟨hgrows, hregistered⟩ := register_spec hs hbase source
  have hmarker := IsMarked.marker hgrows.sound hregistered
  refine ⟨hgrows, ?_⟩
  have hwritten : p.toString (jsonText (st.marker base source original).1) =
      '"' :: ((st.marker base source original).1 ++ ['"']) :=
    hw _ (plain_markerOf hn hgrows.sound hregistered)
  dsimp only
  rw [hwritten]
  exact .cons hn rfl (hmarker.separated hn rfl (.nil hn))

variable (hp : p.Compact) (hw : p.PlainWords)

include hp hw

theorem replaceJsonPlaceholders_writes
    (v : Value N) (path : Text) {st : Exporting N} (hs : st.placeholders.Sound nonce)
    (hfresh : ∀ t ∈ jsonTexts p v, ¬ nonce <:+: t) :
    Writes nonce st (p.toString (replaceJsonPlaceholders p r v path st).1,
      (replaceJsonPlaceholders p r v path st).2) := by
  induction v using Value.ind
    (I := fun items => ∀ index path {st}, st.placeholders.Sound nonce →
      (∀ t ∈ itemsTexts p items, ¬ nonce <:+: t) →
      st.placeholders.Grows nonce (replaceItems p r items index path st).2.placeholders ∧
        ∀ v ∈ (replaceItems p r items index path st).1,
          IsMarked nonce (replaceItems p r items index path st).2.placeholders (p.toString v))
    (M := fun members => ∀ path {st}, st.placeholders.Sound nonce →
      (∀ t ∈ membersTexts p members, ¬ nonce <:+: t) →
      st.placeholders.Grows nonce (replaceMembers p r members path st).2.placeholders ∧
        ∀ m ∈ (replaceMembers p r members path st).1,
          IsMarked nonce (replaceMembers p r members path st).2.placeholders
              (p.toString (.string m.1)) ∧
            IsMarked nonce (replaceMembers p r members path st).2.placeholders (p.toString m.2))
    generalizing path st with
  | null | bool b | number n => exact .of_captured hs (hfresh _ mem_cons_self)
  | string s =>
    rw [replaceJsonPlaceholders]
    split
    · exact jsonMarker_writes hn hw hs isEnvName_bodyValue _ _
    · exact .of_captured hs (hfresh _ mem_cons_self)
  | array items ih =>
    obtain ⟨hgrows, htexts⟩ := ih 0 path hs hfresh
    rw [replaceJsonPlaceholders]
    refine ⟨hgrows, ?_⟩
    dsimp only
    rw [hp.array]
    refine .cons hn rfl (IsMarked.separated hn (.intercalate hn rfl fun t ht => ?_) rfl (.nil hn))
    obtain ⟨v, hv, rfl⟩ := mem_map.mp ht
    exact htexts v hv
  | object members ih =>
    obtain ⟨hgrows, htexts⟩ := ih path hs hfresh
    rw [replaceJsonPlaceholders]
    refine ⟨hgrows, ?_⟩
    dsimp only
    rw [hp.object]
    refine .cons hn rfl (IsMarked.separated hn (.intercalate hn rfl fun t ht => ?_) rfl (.nil hn))
    obtain ⟨m, hm, rfl⟩ := mem_map.mp ht
    exact (htexts m hm).1.separated hn rfl (htexts m hm).2
  | nil _ _ hs | noMembers _ hs => exact ⟨hs.grows, forall_mem_nil _⟩
  | cons item items ihv ih index path hs hfresh =>
    have hfirst := ihv (indexPath path index) hs fun t ht => hfresh t (mem_append_left _ ht)
    obtain ⟨hgrows, htexts⟩ := ih (index + 1) path hfirst.grows.sound
      fun t ht => hfresh t (mem_append_right _ ht)
    rw [replaceItems]
    have hmarked := hfirst.marked.mono hgrows
    exact ⟨hfirst.grows.trans hgrows, forall_mem_cons.mpr ⟨hmarked, htexts⟩⟩
  | @member key child members ihv ih path st hs hfresh =>
    have hkey : ¬ nonce <:+: p.toString (.string key) := hfresh _ mem_cons_self
    have hchild : Writes nonce st (p.toString (replaceMember p r (key, child) path st).1.2,
        (replaceMember p r (key, child) path st).2) := by
      rw [replaceMember]
      split
      · exact jsonMarker_writes hn hw hs (isEnvName_segment isEnvName_body _) _ _
      · exact ihv _ hs fun t ht =>
          hfresh t (mem_cons_of_mem _ (mem_append_left _ ht))
    obtain ⟨hgrows, htexts⟩ := ih path hchild.grows.sound
      fun t ht => hfresh t (mem_append_right _ ht)
    rw [replaceMembers]
    have hmarked := hchild.marked.mono hgrows
    have hname : (replaceMember p r (key, child) path st).1.1 = key := by
      rw [replaceMember]
      split <;> rfl
    refine ⟨hchild.grows.trans hgrows, forall_mem_cons.mpr ⟨⟨?_, hmarked⟩, htexts⟩⟩
    rw [hname]
    exact .captured hkey

theorem exportText_writes {text : Text} (raw : Bool) (hs : st.placeholders.Sound nonce)
    (hfresh : ∀ t ∈ bodyTexts p text, ¬ nonce <:+: t) :
    Writes nonce st (exportText p r text raw st) := by
  have htext : ¬ nonce <:+: text := hfresh text mem_cons_self
  rw [exportText]
  by_cases hraw : raw = true
  · rw [if_pos hraw]
    exact .of_captured hs htext
  rw [if_neg hraw]
  cases hparse : p.fromStr text with
  | some value =>
    refine replaceJsonPlaceholders_writes hn hp hw value _ hs fun t ht =>
      hfresh t (mem_cons_of_mem _ ?_)
    rw [hparse]
    exact ht
  | none =>
    dsimp only
    split
    · exact Exporting.marker_writes hs isEnvName_body _ _
    · exact .of_captured hs htext

theorem exportBody_lexes {body : Bytes} (raw : Bool) (hs : st.placeholders.Sound nonce)
    (hfresh : ∀ t ∈ bodyTexts p (chars body), ¬ nonce <:+: t) :
    st.placeholders.Grows nonce (exportBody p r body raw st).exporting.placeholders ∧
      ∀ part ∈ (exportBody p r body raw st).parts,
        part.Lexes nonce (exportBody p r body raw st).exporting.placeholders := by
  have hnone : ∀ {ps : Placeholders}, ∀ part ∈ ([] : List CommandPart), part.Lexes nonce ps :=
    forall_mem_nil _
  rw [exportBody]
  split
  · exact ⟨hs.grows, hnone⟩
  split
  · exact ⟨hs.grows, hnone⟩
  split
  · exact ⟨hs.grows, hnone⟩
  have hwrites : Writes nonce st (exportText p r (chars body) raw st) :=
    exportText_writes hn hp hw raw hs hfresh
  refine ⟨hwrites.grows, forall_mem_cons.mpr ⟨?_, forall_mem_singleton.mpr ?_⟩⟩
  · exact CommandPart.lexes_word (by decide) (by decide)
  · exact ⟨hwrites.grows.sound.grows, hwrites.grows.sound, hwrites.marked⟩

theorem exportBodyIfGranted_lexes
    (permissions : CurlPermissions) (request : CurlRequest) {body : Option Bytes}
    (hs : st.placeholders.Sound nonce)
    (hfresh : ∀ t ∈ (body.map fun body => bodyTexts p (chars body)).getD [], ¬ nonce <:+: t) :
    st.placeholders.Grows nonce
        (exportBodyIfGranted p r permissions request body st).exporting.placeholders ∧
      ∀ part ∈ (exportBodyIfGranted p r permissions request body st).parts, part.Lexes nonce
        (exportBodyIfGranted p r permissions request body st).exporting.placeholders := by
  have hnone : ∀ {ps : Placeholders}, ∀ part ∈ ([] : List CommandPart), part.Lexes nonce ps :=
    forall_mem_nil _
  cases body with
  | none => exact ⟨hs.grows, hnone⟩
  | some body =>
    rw [exportBodyIfGranted]
    split
    · exact ⟨hs.grows, hnone⟩
    split
    · exact ⟨hs.grows, hnone⟩
    · exact exportBody_lexes hn hp hw request.raw hs hfresh

end Export

/-! ## The command -/

theorem sound_new (nonce : Text) : (Placeholders.new nonce).Sound nonce := ⟨rfl, forall_mem_nil _⟩

theorem exportSessionAsCurl_ok {parseUrl : Text → Except Text ParsedUrl}
    {permissions : CurlPermissions} {request : CurlRequest} {session : CurlSession}
    {out : CurlExport N}
    (hok : exportSessionAsCurl p r parseUrl nonce permissions request session = .ok out) :
    ∃ headers url parts, session.headers = some headers ∧
      exportUrl p r parseUrl session.url request.raw ⟨.new nonce, []⟩ = .ok url ∧
      parts =
        [.word request.shell.command, .word "--request", .literal session.method,
          .word "--url", .marked url.1 url.2.placeholders] ++
        (exportHeaders p r headers request.raw url.2).1 ++
        (if (exportHeaders p r headers request.raw url.2).2.1 then
          [.word "--compressed"] else []) ++
        (if isHttp2 session then [.word "--http2"] else []) ++
        (exportBodyIfGranted p r permissions request session.body
          (exportHeaders p r headers request.raw url.2).2.2).parts ∧
      ⟨out.placeholders, out.replaced⟩ = (exportBodyIfGranted p r permissions request session.body
        (exportHeaders p r headers request.raw url.2).2.2).exporting ∧
      out.command = [' '].intercalate (parts.map (CommandPart.render request.shell)) := by
  rw [exportSessionAsCurl] at hok
  split at hok
  · cases hok
  split at hok
  · cases hok
  cases hheaders : session.headers with
  | none =>
    rw [hheaders] at hok
    cases hok
  | some headers =>
    rw [hheaders] at hok
    obtain ⟨url, hurl, hok⟩ := Fallible.bind_ok_iff.mp hok
    obtain rfl := Except.ok.inj hok
    exact ⟨headers, url, _, rfl, hurl, rfl, rfl, rfl⟩

/-- The shell reads the exported command as its arguments, with the values of the variables in the
places of the markers; there are no other expansions. -/
theorem posix_command_lexes (hp : p.Compact) (hw : p.PlainWords)
    {parseUrl : Text → Except Text ParsedUrl} {permissions : CurlPermissions} {request : CurlRequest}
    (hshell : request.shell = .posix) {session : CurlSession} (hn : IsNonce nonce)
    (hfresh : ∀ t ∈ capturedTexts p parseUrl session, ¬ nonce <:+: t) {out : CurlExport N}
    (hok : exportSessionAsCurl p r parseUrl nonce permissions request session = .ok out) :
    ∃ url words, exportUrl p r parseUrl session.url request.raw ⟨.new nonce, []⟩ = .ok url ∧
      Shell.lex out.command = some words ∧
      (∀ w ∈ words, ∀ name, .param name ∈ w → out.placeholders.Registered name) ∧
      ∀ env, words.map (Shell.expand env) =
        curlArguments p r permissions request session url out.placeholders env := by
  obtain ⟨headers, url, parts, hheaders, hurl, hparts, hend, hcommand⟩ := exportSessionAsCurl_ok hok
  rw [capturedTexts, hheaders] at hfresh
  have hurlWrites : Writes nonce ⟨.new nonce, []⟩ url :=
    exportUrl_writes hn (sound_new nonce) (fun t ht =>
      hfresh t (mem_append_left _ (mem_append_left _ ht))) hurl
  obtain ⟨hheadersGrow, hheadersLex⟩ := exportHeaders_lexes (p := p) (r := r) hn request.raw headers
    hurlWrites.grows.sound fun t ht =>
      hfresh t (mem_append_left _ (mem_append_right _ ht))
  have hbodyTexts : ∀ t ∈ (session.body.map fun body => bodyTexts p (chars body)).getD [],
      ¬ nonce <:+: t := fun t ht => hfresh t (mem_append_right _ ht)
  obtain ⟨hbodyGrow, hbodyLex⟩ := exportBodyIfGranted_lexes (p := p) (r := r) hn hp hw permissions
    request hheadersGrow.sound hbodyTexts
  rw [← hend] at hbodyGrow hbodyLex
  have hlex : ∀ part ∈ parts, part.Lexes nonce out.placeholders := by
    rw [hparts, hshell]
    intro part hpart
    simp only [mem_append, mem_cons, not_mem_nil, or_false] at hpart
    rcases hpart with ((((rfl | rfl | rfl | rfl | rfl) | hpart) | hpart) | hpart) | hpart
    · exact CommandPart.lexes_word (by decide) (by decide)
    · exact CommandPart.lexes_word (by decide) (by decide)
    · trivial
    · exact CommandPart.lexes_word (by decide) (by decide)
    · exact ⟨hheadersGrow.trans hbodyGrow, hurlWrites.grows.sound, hurlWrites.marked⟩
    · exact (hheadersLex part hpart).mono hbodyGrow
    · split at hpart
      · rw [mem_singleton.mp hpart]
        exact CommandPart.lexes_word (by decide) (by decide)
      · exact absurd hpart not_mem_nil
    · split at hpart
      · rw [mem_singleton.mp hpart]
        exact CommandPart.lexes_word (by decide) (by decide)
      · exact absurd hpart not_mem_nil
    · exact hbodyLex part hpart
  obtain ⟨words, hadds, hnames, hexpand⟩ := lexes_all hn hlex
  refine ⟨url, words, hurl, ?_, hnames, fun env => ?_⟩
  · rw [hcommand, hshell]
    exact Shell.lex_intercalate hadds
  · rw [hexpand, hparts, curlArguments, hheaders]
    simp only [map_append, apply_ite (List.map _), map_cons, map_nil, CommandPart.argument,
      Option.getD_some]

namespace Sample

theorem platform_plainWords : platform.PlainWords := by
  intro t ht
  have hchars : ∀ t : Text, (∀ c ∈ t, (c.isAlphanum || c == '_') = true) →
      t.flatMap printChar = t := by
    intro t
    induction t with
    | nil => exact fun _ => rfl
    | cons c t ih =>
      intro ht
      have hc := ht c mem_cons_self
      have hne : ∀ d : Char, (d.isAlphanum || d == '_') = false → c ≠ d := by
        rintro d hd rfl
        rw [hc] at hd
        cases hd
      have hplain : printChar c = [c] := by
        rw [printChar, if_neg (hne _ (by decide)), if_neg (hne _ (by decide)),
          if_neg (hne _ (by decide)), if_neg (hne _ (by decide)), if_neg (hne _ (by decide))]
      rw [flatMap_cons, hplain, ih fun d hd => ht d (mem_cons_of_mem c hd)]
      rfl
  show '"' :: ((chars (encode t)).flatMap printChar ++ ['"']) = _
  rw [Utf8.chars_encode, hchars t ht]

def exportNonce : Text := "0123456789abcdef0123456789abcdef"

theorem isNonce_exportNonce : IsNonce exportNonce := ⟨by decide, all_eq_true.mp (by decide)⟩

def parseUrl (_ : Text) : Except Text ParsedUrl :=
  .ok ⟨"https://api.example.com/", [("token", "it's")]⟩

def permissions : CurlPermissions := ⟨true, false, true⟩

def request : CurlRequest := ⟨.posix, true, false⟩

def session : CurlSession where
  id := "s"
  method := "GET"
  url := "https://api.example.com/?token=it's"
  httpVersion := "1.1"
  protocol := "https"
  headers := some [⟨"X-Note", "$(id)", none⟩]
  body := none

theorem fresh_session : ∀ t ∈ capturedTexts platform parseUrl session, ¬ exportNonce <:+: t := by
  decide

theorem export_session : ∃ out, exportSessionAsCurl platform redactor parseUrl exportNonce permissions
    request session = .ok out := ⟨_, rfl⟩

end Sample

theorem posix_command_lexes_token :
    ∃ out, exportSessionAsCurl Sample.platform Sample.redactor Sample.parseUrl Sample.exportNonce
        Sample.permissions Sample.request Sample.session = .ok out ∧
      ∃ words, Shell.lex out.command = some words ∧ ∀ env, words.map (Shell.expand env) =
        ["curl".toList, "--request".toList, "GET".toList, "--url".toList,
          "https://api.example.com/?token=".toList ++ env "AIPROXY_QUERY_TOKEN".toList,
          "--header".toList, "X-Note: $(id)".toList] := by
  obtain ⟨out, hok⟩ := Sample.export_session
  obtain ⟨url, words, hurl, hlex, -, hwords⟩ := posix_command_lexes Sample.platform_compact
    Sample.platform_plainWords rfl Sample.isNonce_exportNonce Sample.fresh_session hok
  refine ⟨out, hok, words, hlex, fun env => ?_⟩
  rw [hwords, ← append_nil (env _)]
  cases hurl
  cases hok
  rfl

end AiProxy.Mcp
