import AiProxy.Mcp.Proofs.ExtractionProofs
import AiProxy.Mcp.Proofs.SinkProofs

/-!
# Searching while redacting is searching what redaction shows

The visitor writes the compact text of the redacted document piece by piece, so that the sink has
searched the text of `redact_text` when it is finished.
-/

namespace AiProxy.Mcp

open List
open Option
open Json (Bytes Value depth)
open Utf8 (chars encode)
open Fallible (bind_ok_iff)
open Sample (platform redactor)

variable {N : Type} {p : Platform N} {r : Redactor}

/-- From the one context to the other this text was written, in pieces. -/
def RedactContext.Wrote (p : Platform N) (text : Text) (c c' : RedactContext N) : Prop :=
  ∃ pieces : List Text, pieces.flatten = text ∧
    c'.sink = pieces.foldl (fun s piece => s.writeStr p piece) c.sink

namespace RedactContext.Wrote

variable {a b : Text} {c c' c'' : RedactContext N}

theorem nil : Wrote p [] c c := ⟨[], rfl, rfl⟩

theorem write (text : Text) : Wrote p text c (c.write p text) := ⟨[text], append_nil text, rfl⟩

theorem writeRedacted (redacted : Text × List RedactionRecord) :
    Wrote p (p.toString (jsonText redacted.1)) c (c.writeRedacted p redacted) :=
  ⟨[p.toString (jsonText redacted.1)], append_nil _, rfl⟩

theorem trans (h : Wrote p a c c') (h' : Wrote p b c' c'') : Wrote p (a ++ b) c c'' := by
  obtain ⟨first, rfl, hfirst⟩ := h
  obtain ⟨second, rfl, hsecond⟩ := h'
  exact ⟨first ++ second, flatten_append, by rw [hsecond, hfirst, foldl_append]⟩

end RedactContext.Wrote

/-- Texts with commas between them, and one before the first if there were texts before. -/
def separated : Bool → List Text → Text
  | _, [] => []
  | more, t :: ts => (if more then ",".toList else []) ++ (t ++ separated true ts)

theorem separated_eq_intercalate (ts : List Text) : separated false ts = [','].intercalate ts := by
  have htail : ∀ (t : Text) ts, t ++ separated true ts = [','].intercalate (t :: ts) := by
    intro t ts
    induction ts generalizing t with
    | nil => simp [separated, intercalate]
    | cons u ts ih =>
      rw [separated, ih u]
      simp [intercalate]
  cases ts with
  | nil => rfl
  | cons t ts => exact htail t ts

theorem sensitiveSeed_fst {key : Bytes} (hname : isSensitiveName p r (chars key) = true)
    {integral : N → Prop} (hdisplay : p.SameDisplay integral) {v : Value N}
      (hv : EachNumber integral v) (path path' : Text) :
    (redactJsonField p r key v path').map (·.1) =
      some (jsonText (sensitiveSeed p r (chars key) path v).1) := by
  obtain ⟨c, hc⟩ := isSome_iff_exists.mp hname
  rw [redactJsonField, hc]
  cases v with
  | null | array items | object members => rfl
  | bool b | string s =>
    rw [sensitiveSeed, redactNamedScalar, hc]
    rfl
  | number n =>
    rw [sensitiveSeed, redactNamedScalar, hc, hdisplay n hv]
    rfl

variable {integral : N → Prop}

theorem redactVisit_wrote (hp : p.Compact) (hdisplay : p.SameDisplay integral) (v : Value N)
    (hv : EachNumber integral v) {path : Text} {d : Nat} {c c' : RedactContext N}
    (h : redactVisit p r v path d c = .ok c') (path' : Text) :
    c.Wrote p (p.toString (redactJsonValueInner p r v path').1) c' := by
  induction v using Value.ind
    (I := fun items => EachItemNumber integral items → ∀ {index path d c c'},
      redactVisitItems p r items index path d c = .ok c' → ∀ path',
      c.Wrote p (separated (decide (0 < index))
        ((redactItems p r items index path').1.map p.toString)) c')
    (M := fun members => EachMemberNumber integral members → ∀ {first path d c c'},
      redactVisitMembers p r members first path d c = .ok c' → ∀ path',
      c.Wrote p (separated (!first) ((redactObject p r members path').1.map fun m =>
        p.toString (.string m.1) ++ ':' :: p.toString m.2)) c')
    generalizing path d c c' path' with
  | null =>
    obtain rfl := Except.ok.inj h
    rw [redactJsonValueInner, hp.null]
    exact .write _
  | bool b | number n =>
    obtain rfl := Except.ok.inj h
    exact .write _
  | string s =>
    obtain rfl := Except.ok.inj h
    rw [redactJsonValueInner, redactStringInner_fst (chars s) path' path]
    exact .writeRedacted _
  | array items ih =>
    rw [redactVisit] at h
    obtain ⟨-, -, h⟩ := bind_ok_iff.mp h
    obtain ⟨x, hx, h⟩ := bind_ok_iff.mp h
    obtain rfl := Except.ok.inj h
    have hitems := ih hv hx path'
    rw [redactJsonValueInner, hp.array, ← separated_eq_intercalate]
    exact ((RedactContext.Wrote.write _).trans hitems).trans (.write _)
  | object members ih =>
    rw [redactVisit] at h
    obtain ⟨-, -, h⟩ := bind_ok_iff.mp h
    obtain ⟨x, hx, h⟩ := bind_ok_iff.mp h
    obtain rfl := Except.ok.inj h
    have hmembers := ih hv hx path'
    rw [redactJsonValueInner, hp.object, ← separated_eq_intercalate]
    exact ((RedactContext.Wrote.write _).trans hmembers).trans (.write _)
  | nil _ h | noMembers _ h =>
    obtain rfl := Except.ok.inj h
    exact .nil
  | @cons v vs ihv ih hv index path d c c' h path' =>
    rw [redactVisitItems] at h
    obtain ⟨x, hx, h⟩ := bind_ok_iff.mp h
    have hcomma : c.Wrote p (if decide (0 < index) then ",".toList else [])
        (if 0 < index then c.write p ",".toList else c) := by
      by_cases hindex : 0 < index
      · rw [if_pos hindex, decide_eq_true hindex, if_pos rfl]
        exact .write _
      · rw [if_neg hindex, decide_eq_false hindex, if_neg Bool.false_ne_true]
        exact .nil
    have hitem := ihv hv.1 hx (indexPath path' index)
    have hrest := ih hv.2 h path'
    rw [decide_eq_true (Nat.succ_pos index)] at hrest
    rw [redactItems]
    exact hcomma.trans (hitem.trans hrest)
  | @member k v ms ihv ih hm first path d c c' h path' =>
    rw [redactVisitMembers] at h
    obtain ⟨x, hx, h⟩ := bind_ok_iff.mp h
    have hcomma : c.Wrote p (if !first then ",".toList else [])
        (if first then c else c.write p ",".toList) := by
      cases first with
      | true => exact .nil
      | false => exact .write _
    have hrest := ih hm.2 h path'
    have hname : ∀ {t : Text} {c x : RedactContext N},
        ((c.write p (p.toString (.string k))).write p ":".toList).Wrote p t x →
        c.Wrote p (p.toString (.string k) ++ ':' :: t) x :=
      fun ht => (RedactContext.Wrote.write _).trans ((RedactContext.Wrote.write _).trans ht)
    rw [redactObject, redactMember]
    refine hcomma.trans (.trans ?_ hrest)
    rw [redactVisitMember] at hx
    have hsome := isSome_redactJsonField (p := p) (r := r) k v (path' ++ '.' :: chars k)
    by_cases hsensitive : isSensitiveName p r (chars k) = true
    · rw [if_pos hsensitive] at hx
      obtain rfl := Except.ok.inj hx
      obtain ⟨x, hx⟩ := isSome_iff_exists.mp (hsome.trans hsensitive)
      have hseed := sensitiveSeed_fst hsensitive hdisplay hm.1 (appendKeyPath path k)
        (path' ++ '.' :: chars k)
      rw [hx, map_some, Option.some.injEq] at hseed
      rw [hx]
      dsimp only [getD_some]
      rw [hseed]
      exact hname (.writeRedacted _)
    · rw [if_neg hsensitive] at hx
      rw [Bool.not_eq_true] at hsensitive
      rw [hsensitive, isSome_eq_false_iff, isNone_iff_eq_none] at hsome
      have hvalue := ihv hm.1 hx (path' ++ '.' :: chars k)
      rw [hsome]
      exact hname hvalue

theorem redactText_value {t : Text} {d : Value N} (hdoc : p.fromSlice (encode t) = .ok d)
    (hunique : UniqueNames d) :
    (redactText p r t).value = p.toString (redactJsonValueInner p r d "$").1 := by
  rw [redactText, Platform.fromStr, hdoc]
  dsimp only
  rw [toValue_of_unique d hunique]
  rfl

/-- The search in a body within the scan limit is the search in its redacted text; a larger body is
refused. -/
theorem search_refines_redacted_view (hp : p.Compact) (hdisplay : p.SameDisplay integral)
    (hliteral : ∀ query : Text, query.length ≤ 256 → p.literalError query = none) {t : Text}
    {d : Value N} (hdoc : p.fromSlice (encode t) = .ok d) (hunique : UniqueNames d)
    (hnumbers : EachNumber integral d) (hdepth : depth d < 128)
    (hshown : byteLen (redactText p r t).value < 2 ^ 63) {query : Text} (hquery : query ≠ [])
    (hlen : query.length ≤ 256) {contextBytes : Nat} (hcontext : contextBytes ≤ 1024)
    (scanLimitBytes : Nat) :
    (∃ outcome,
      searchText p r (encode t) (byteLen t) query contextBytes false scanLimitBytes = .ok outcome ∧
      (outcome.found, outcome.limited) = textMatches p (redactText p r t).value query contextBytes) ↔
    byteLen t ≤ scanLimitBytes := by
  choose visit hvisit using fun sink : MatchSink N =>
    redactVisit_ok (p := p) (r := r) d (depth_le hdepth) "$" ⟨sink, []⟩
  rw [searchText_of_document hdoc hvisit]
  constructor
  · rintro ⟨outcome, hok, -⟩
    by_contra hlarge
    rw [if_pos (lt_of_not_ge hlarge)] at hok
    cases hok
  intro hscan
  obtain ⟨sink, hnew, hsearched⟩ :=
    MatchSink.new_searched (hliteral query hlen) hquery hlen hcontext hshown
  have hwrote := redactVisit_wrote hp hdisplay d hnumbers (hvisit sink) "$"
  rw [← redactText_value hdoc hunique] at hwrote
  obtain ⟨pieces, hpieces, hsink⟩ := hwrote
  refine ⟨searchOutcome p (visit sink), ?_, ?_⟩
  · rw [if_neg (not_lt.mpr hscan), searchDocument, hnew]
    rfl
  · rw [← hsearched pieces hpieces, searchOutcome, hsink]

namespace Sample

theorem platform_sameDisplay : platform.SameDisplay fun _ => True := fun _ _ => rfl

theorem eachNumber_secretDocument (n : Nat) : EachNumber (fun _ => True) (secretDocument n) :=
  ⟨trivial, trivial⟩

theorem byteLen_redactText : byteLen (redactText platform redactor (text 1)).value < 2 ^ 63 := by
  rw [redactText_value (platform_text 1) (uniqueNames_secretDocument 1)]
  decide

end Sample

/-- The sink finds in what it is given piece by piece what a search in the whole text finds. -/
theorem sink_finds_global_matches {query : Text} (hliteral : p.literalError query = none)
    (hquery : query ≠ []) (hlen : query.length ≤ 256) {contextBytes : Nat}
    (hcontext : contextBytes ≤ 1024) (chunks : List Text)
    (htext : byteLen chunks.flatten < 2 ^ 63) :
    ∃ sink, MatchSink.new p query contextBytes = .ok sink ∧
      (((chunks.foldl (fun s chunk => s.writeStr p chunk) sink).finish p).found,
        ((chunks.foldl (fun s chunk => s.writeStr p chunk) sink).finish p).limited) =
      textMatches p chunks.flatten query contextBytes := by
  obtain ⟨sink, hnew, hsearched⟩ := MatchSink.new_searched hliteral hquery hlen hcontext htext
  exact ⟨sink, hnew, hsearched chunks rfl⟩

def Sample.straddling (n : Nat) : List Text :=
  [replicate n 'x' ++ ['a'], [], 'b' :: replicate n 'y']

/-- Text before the match is scanned before the chunk comes that completes it. -/
theorem sink_finds_global_matches_straddling :
    ∃ sink, MatchSink.new platform "ab" 1 = .ok sink ∧
      ((((Sample.straddling 20000).foldl (fun s chunk => s.writeStr platform chunk)
          sink).finish platform).found,
        (((Sample.straddling 20000).foldl (fun s chunk => s.writeStr platform chunk)
          sink).finish platform).limited) =
      textMatches platform (Sample.straddling 20000).flatten "ab" 1 := by
  have hlength : ∀ n, (Sample.straddling n).flatten.length = 2 * n + 2 := by
    intro n
    simp only [Sample.straddling, length_flatten, map_cons, map_nil, sum_cons,
      sum_nil, length_append, length_cons, length_replicate, length_nil]
    omega
  have hbytes := byteLen_le (Sample.straddling 20000).flatten
  rw [hlength] at hbytes
  exact sink_finds_global_matches rfl (by decide) (by decide) (by decide) _ (by omega)

/-- Redacted, the document is a digit that the query finds; the body is refused. -/
theorem blank_document_not_searched :
    (Sample.platform.fromSlice (encode (Sample.blankText maxTextQueryScanBytes)) = .ok (.number 0) ∧
      UniqueNames (.number 0 : Value Nat) ∧ depth (.number 0 : Value Nat) < 128) ∧
    (textMatches platform
      (redactText platform redactor (Sample.blankText maxTextQueryScanBytes)).value
      ['0'] 16).1.length = 1 ∧
    ∃ e, searchText platform redactor (encode (Sample.blankText maxTextQueryScanBytes))
      (byteLen (Sample.blankText maxTextQueryScanBytes)) ['0'] 16 false maxTextQueryScanBytes =
        .error e ∧ e.code = "BODY_TOO_LARGE" := by
  have hdoc := Sample.platform_blankText maxTextQueryScanBytes
  refine ⟨⟨hdoc, trivial, by decide⟩, ?_,
    ⟨textQueryScanLimitError platform (maxTextQueryScanBytes + 1) maxTextQueryScanBytes, ?_,
      rfl⟩⟩
  · rw [redactText_value hdoc trivial]
    decide
  · rw [searchText, Sample.byteLen_blankText, if_pos (Nat.lt_succ_self _)]

theorem search_refines_redacted_view_password :
    ∃ outcome, searchText platform redactor (encode (Sample.text 1))
        (byteLen (Sample.text 1)) "word" 4 false maxTextQueryScanBytes = .ok outcome ∧
      (outcome.found, outcome.limited) = textMatches platform
        (redactText platform redactor (Sample.text 1)).value "word" 4 :=
  (search_refines_redacted_view Sample.platform_compact Sample.platform_sameDisplay
    (fun _ _ => rfl) (Sample.platform_text 1) (Sample.uniqueNames_secretDocument 1)
    (Sample.eachNumber_secretDocument 1) (Sample.depth_secretDocument 1) Sample.byteLen_redactText
    (by decide) (by decide) (by decide) maxTextQueryScanBytes).mpr (by decide)

end AiProxy.Mcp
