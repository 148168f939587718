import AiProxy.Mcp.Proofs.RedactionProofs

/-!
# Documents that differ in their secrets

Two documents that agree outside the values of secret members give the same redacted text, the same
extracted values and the same search results, unless they are refused for their size.
-/

namespace AiProxy.Mcp

open List
open Json (Bytes Value depth toValue)
open Utf8 (chars encode)

variable {N : Type} {p : Platform N} {r : Redactor} {t : Text} {d : Value N}
variable {segments : List (List JsonPathSegment)}

/-- The visit of a document for these paths, from its root. -/
abbrev captureDocument (p : Platform N) (r : Redactor) (raw : Bool) (d : Value N)
    (segments : List (List JsonPathSegment)) : Except Text (CapturedValue N × ExtractionState N) :=
  captureValue p r raw d [buildPathTree segments] "$" (buildPathTree segments).hasTerminals 0
    (.new segments.length)

theorem depth_le (h : depth d < 128) : 0 + depth d ≤ maxJsonDepth := by
  rw [maxJsonDepth]
  omega

theorem captureDocument_ok {raw : Bool} (hdepth : depth d < 128)
    (segments : List (List JsonPathSegment)) : ∃ x, captureDocument p r raw d segments = .ok x := by
  exact captureValue_ok d (depth_le hdepth) _ _ _ _

theorem parseReader_document {raw : Bool} (h : p.fromSlice (encode t) = .ok d) :
    parseReader p r raw (encode t) (buildPathTree segments) (.new segments.length) =
      (captureDocument p r raw d segments).map (·.2) := by
  rw [parseReader, h]
  show (captureDocument p r raw d segments).bind _ = _
  cases captureDocument p r raw d segments with
  | error | ok => rfl

theorem redactText_of_document (h : p.fromSlice (encode t) = .ok d) : redactText p r t =
      output (p.toString (redactJsonValueInner p r (toValue d) "$").1)
        (redactJsonValueInner p r (toValue d) "$").2 := by
  have hfrom : p.fromStr t = some (toValue d) := by
    rw [Platform.fromStr, h]
  rw [redactText, hfrom]

theorem validateBytes_encode (h : byteLen t ≤ maxJsonPathScanBytes) :
    validateBytes p (encode t) = .ok (p.sha256Hex (encode t)) := by
  have hlen : ¬ maxJsonPathScanBytes < (encode t).length := not_lt.mpr h
  have hutf8 : String.fromUTF8? ⟨(encode t).toArray⟩ = some (String.ofList t) := by
    have hbytes : encode t = Utf8.bytes (String.ofList t) := (Utf8.bytes_ofList t).symm
    rw [hbytes]
    exact Utf8.fromUTF8?_bytes _
  rw [validateBytes, if_neg hlen, hutf8]
  rfl

theorem extractJsonPaths_of_scannable {raw captureTruncated : Bool}
    {x : CapturedValue N × ExtractionState N} (h : p.fromSlice (encode t) = .ok d)
    (hscan : Scannable segments (byteLen t))
    (hx : captureDocument p r raw d segments = .ok x) :
    extractJsonPaths p r raw (encode t) captureTruncated (byteLen t) segments =
      .ok (extraction p segments x.2 (p.sha256Hex (encode t))) := by
  obtain ⟨hscan, hroot⟩ := hscan
  have hnot : ¬ (segments.any List.isEmpty && decide (rootPathScanBytes < byteLen t)) = true := by
    intro hand
    rw [Bool.and_eq_true, decide_eq_true_eq] at hand
    have := hroot hand.1
    omega
  rw [extractJsonPaths, if_neg (not_lt.mpr hscan), if_neg hnot, validateBytes_encode hscan,
    parseReader_document h, hx]
  rfl

theorem extractJsonPaths_of_not_scannable {raw captureTruncated : Bool}
    (h : ¬ Scannable segments (byteLen t)) :
    ∃ e, extractJsonPaths p r raw (encode t) captureTruncated (byteLen t) segments = .error e ∧
      e.code = "BODY_TOO_LARGE" := by
  by_cases hscan : maxJsonPathScanBytes < byteLen t
  · refine ⟨scanLimitError p (byteLen t), ?_, rfl⟩
    rw [extractJsonPaths, if_pos hscan]
  · refine ⟨rootPathError p (byteLen t), ?_, rfl⟩
    have hroot : (segments.any List.isEmpty && decide (rootPathScanBytes < byteLen t)) = true := by
      rw [Bool.and_eq_true, decide_eq_true_eq]
      by_contra hnot
      refine h ⟨not_lt.mp hscan, fun hempty => ?_⟩
      by_contra hlt
      exact hnot ⟨hempty, not_le.mp hlt⟩
    rw [extractJsonPaths, if_neg hscan, if_pos hroot]

/-- What a search shows once the document is in the sink. -/
def searchOutcome (p : Platform N) (c : RedactContext N) : TextSearchOutcome N :=
  ⟨(c.sink.finish p).found, (c.sink.finish p).limited, true,
    btreeSet (c.records.map (·.rule)), none⟩

/-- The search in a document, given how the visitor leaves a sink. -/
def searchDocument (p : Platform N) (query : Text) (contextBytes : Nat)
    (visit : MatchSink N → RedactContext N) : Except (ToolError N) (TextSearchOutcome N) :=
  (MatchSink.new p query contextBytes).map fun sink => searchOutcome p (visit sink)

theorem searchText_of_document {visit : MatchSink N → RedactContext N}
    (h : p.fromSlice (encode t) = .ok d)
    (hvisit : ∀ sink, redactVisit p r d "$" 0 ⟨sink, []⟩ = .ok (visit sink))
    (query : Text) (contextBytes scanLimitBytes : Nat) :
    searchText p r (encode t) (byteLen t) query contextBytes false scanLimitBytes =
      if scanLimitBytes < byteLen t then
        .error (textQueryScanLimitError p (byteLen t) scanLimitBytes)
      else searchDocument p query contextBytes visit := by
  have hstream : ∀ sink, tryStreamRedactedJson p r (encode t) ⟨sink, []⟩ = .ok (visit sink) := by
    intro sink
    rw [tryStreamRedactedJson, h]
    exact hvisit sink
  rw [searchText]
  by_cases hlimit : scanLimitBytes < byteLen t
  · rw [if_pos hlimit, if_pos hlimit]
  rw [if_neg hlimit, if_neg hlimit, searchDocument]
  cases MatchSink.new p query contextBytes with
  | error e => rfl
  | ok sink =>
    simp only [hstream]
    rfl

variable {t₁ t₂ : Text} {d₁ d₂ : Value N}

theorem Agree.redactText (h₁ : p.fromSlice (encode t₁) = .ok d₁)
    (h₂ : p.fromSlice (encode t₂) = .ok d₂) (h : Agree (Secret p r) d₁ d₂) :
    redactText p r t₁ = redactText p r t₂ := by
  rw [redactText_of_document h₁, redactText_of_document h₂, h.toValue.redact]

/-- The redacted views of two documents that differ only in the values, other than `null`, of members
with secret names: each view is the same for both, or the body is refused for its size. -/
theorem redaction_noninterference
    (h₁ : p.fromSlice (encode t₁) = .ok d₁) (h₂ : p.fromSlice (encode t₂) = .ok d₂)
    (hd₁ : depth d₁ < 128) (hd₂ : depth d₂ < 128) (h : Agree (Secret p r) d₁ d₂) :
    (redactText p r t₁).value = (redactText p r t₂).value ∧
    (∀ segments, ∃ view, ∀ t ∈ [t₁, t₂], ∀ captureTruncated,
      (Scannable segments (byteLen t) →
        ∃ e, extractJsonPaths p r false (encode t) captureTruncated (byteLen t) segments = .ok e ∧
          e.view = view) ∧
      (¬ Scannable segments (byteLen t) →
        ∃ e, extractJsonPaths p r false (encode t) captureTruncated (byteLen t) segments =
            .error e ∧ e.code = "BODY_TOO_LARGE")) ∧
    ∀ query contextBytes, ∃ outcome, ∀ t ∈ [t₁, t₂], ∀ scanLimitBytes,
      searchText p r (encode t) (byteLen t) query contextBytes false scanLimitBytes =
        if scanLimitBytes < byteLen t then
          .error (textQueryScanLimitError p (byteLen t) scanLimitBytes)
        else outcome := by
  refine ⟨by rw [h.redactText h₁ h₂], fun segments => ?_, fun query contextBytes => ?_⟩
  · obtain ⟨x, hx₁⟩ := captureDocument_ok (p := p) (r := r) hd₁ segments
    have hx₂ := (h.captureValue (depth_le hd₁) (depth_le hd₂) _ _ _ _).symm.trans hx₁
    refine ⟨(extraction p segments x.2 []).view, fun t ht captureTruncated => ⟨fun hscan => ?_, ?_⟩⟩
    · rcases mem_pair.mp ht with rfl | rfl
      · exact ⟨_, extractJsonPaths_of_scannable h₁ hscan hx₁, rfl⟩
      · exact ⟨_, extractJsonPaths_of_scannable h₂ hscan hx₂, rfl⟩
    · exact extractJsonPaths_of_not_scannable
  · choose visit hvisit₁ using fun sink : MatchSink N =>
      redactVisit_ok (p := p) (r := r) d₁ (depth_le hd₁) "$" ⟨sink, []⟩
    have hvisit₂ : ∀ sink, redactVisit p r d₂ "$" 0 ⟨sink, []⟩ = .ok (visit sink) :=
      fun sink => (h.redactVisit _ _ _).symm.trans (hvisit₁ sink)
    refine ⟨searchDocument p query contextBytes visit, fun t ht scanLimitBytes => ?_⟩
    rcases mem_pair.mp ht with rfl | rfl
    · exact searchText_of_document h₁ hvisit₁ query contextBytes scanLimitBytes
    · exact searchText_of_document h₂ hvisit₂ query contextBytes scanLimitBytes

/-! ## A platform -/

namespace Sample

def numOf (token : Bytes) : Option Nat :=
  if token.all Json.isDigit then some (token.foldl (fun n b => n * 10 + (b.toNat - 0x30)) 0)
  else none

def fromSlice (bytes : Bytes) : Except Text (Value Nat) :=
  match Json.document numOf bytes with
  | none => .error "expected value"
  | some d => if depth d < 128 then .ok d else .error "recursion limit exceeded"

def printChar (c : Char) : Text :=
  if c = '"' then ['\\', '"']
  else if c = '\\' then ['\\', '\\']
  else if c = '\n' then ['\\', 'n']
  else if c = '\r' then ['\\', 'r']
  else if c = '\t' then ['\\', 't']
  else [c]

def printString (s : Bytes) : Text := '"' :: ((chars s).flatMap printChar ++ ['"'])

mutual

def print : Value Nat → Text
  | .null => "null"
  | .bool true => "true"
  | .bool false => "false"
  | .number n => natText n
  | .string s => printString s
  | .array items => '[' :: (printItems items ++ [']'])
  | .object members => '\x7b' :: (printMembers members ++ ['\x7d'])

def printItems : List (Value Nat) → Text
  | [] => []
  | v :: vs => print v ++ (if vs.isEmpty then [] else ',' :: printItems vs)

def printMembers : List (Bytes × Value Nat) → Text
  | [] => []
  | m :: ms => printMember m ++ (if ms.isEmpty then [] else ',' :: printMembers ms)

def printMember : Bytes × Value Nat → Text
  | (k, v) => printString k ++ ':' :: print v

end

def unicode : Unicode where
  toLowercase := List.map Char.toLower
  isWord c := c.isAlphanum || c == '_'
  isDecimal := Char.isDigit
  simpleFold a b := a.toLower == b.toLower
  isWord_ascii _ _ := rfl
  isDecimal_ascii _ _ := rfl

def platform : Platform Nat where
  unicode := unicode
  fromSlice := fromSlice
  toString := print
  numberToString := natText
  displayNumber := natText
  ofNat n := n
  hmacSha256 _ _ := []
  sha256Hex _ := []
  isDocument bytes := (Json.document numOf bytes).isSome
  literalError _ := none

def redactor : Redactor := ⟨[], ⟨true, true, []⟩, []⟩

def password : Bytes := encode "password"

theorem secret_password : Secret platform redactor password := by
  refine ⟨⟨"password", .secret⟩, ?_, rfl⟩
  rw [password, Utf8.chars_encode]
  decide

/-! A document with one secret. -/

def opening : Text := "\x7b\"password\":\""

def closing : Text := "\"\x7d"

def text (n : Nat) : Text := opening ++ (List.replicate n 'x' ++ closing)

def secretDocument (n : Nat) : Value Nat :=
  .object [(password, .string (List.replicate n 0x78))]

theorem encode_opening : encode opening =
    Json.openBrace :: (Json.quote :: (password ++ [Json.quote, Json.colon, Json.quote])) := by
  decide

theorem encode_closing : encode closing = [Json.quote, Json.closeBrace] := by decide

theorem encode_text (n : Nat) :
    encode (text n) = encode opening ++ (List.replicate n 0x78 ++ encode closing) := by
  have hx : String.utf8EncodeChar 'x' = [0x78] := by decide
  rw [text, Utf8.encode_append, Utf8.encode_append, Utf8.encode_replicate hx]

theorem byteLen_text (n : Nat) : byteLen (text n) = n + 15 := by
  have hopening : (encode opening).length = 13 := by decide
  rw [byteLen, encode_text, length_append, length_append, length_replicate,
    encode_closing, length_cons, length_singleton]
  omega

theorem plain_password : Json.Plain password := by
  unfold Json.Plain
  decide +kernel

def tree (n : Nat) : Json.Cst Nat :=
  .object [] (.last ⟨[], password, [], password⟩
    (.leaf [] (Json.quote :: (List.replicate n 0x78 ++ [Json.quote])) []
      (.string (List.replicate n 0x78)))) []

theorem tree_wf (n : Nat) : (tree n).WF (Json.Token numOf) Json.AnyNames := by
  have hplain : Json.Plain (List.replicate n 0x78) := Json.plain_replicate (by decide) n
  have hws : Json.AllWs [] := forall_mem_nil _
  exact ⟨hws, hws, trivial, ⟨hws, hws, plain_password.closed, plain_password.unescape⟩, hws, hws,
    .string hplain.closed hplain.unescape⟩

theorem render_tree (n : Nat) : (tree n).render = encode (text n) := by
  rw [encode_text, encode_opening, encode_closing]
  simp [tree, Json.Cst.render, Json.Members.render, Json.Key.render]

theorem platform_render {tree : Json.Cst Nat} (h : tree.WF (Json.Token numOf) Json.AnyNames)
    (hdepth : depth tree.document < 128) : platform.fromSlice tree.render = .ok tree.document := by
  have hslice : platform.fromSlice = fromSlice := rfl
  rw [hslice, fromSlice, h.document]
  exact if_pos hdepth

theorem depth_secretDocument (n : Nat) : depth (secretDocument n) < 128 := by
  simp [secretDocument, depth, Json.membersDepth, Json.memberDepth]

theorem platform_text (n : Nat) :
    platform.fromSlice (encode (text n)) = .ok (secretDocument n) := by
  rw [← render_tree]
  exact platform_render (tree_wf n) (depth_secretDocument n)

theorem agree_documents (m n : Nat) :
    Agree (Secret platform redactor) (secretDocument m) (secretDocument n) :=
  ⟨_, rfl, _, _, rfl, ⟨_, rfl, .inr ⟨secret_password, by simp, by simp⟩⟩, rfl⟩

def secretPath : List (List JsonPathSegment) := [[.key password]]

theorem scannable_secretPath {n : Nat} :
    Scannable secretPath (byteLen (text n)) ↔ n + 15 ≤ maxJsonPathScanBytes := by
  have hroot : ¬ secretPath.any List.isEmpty = true := by decide
  rw [Scannable, byteLen_text]
  exact ⟨fun h => h.1, fun h => ⟨h, fun hempty => absurd hempty hroot⟩⟩

theorem extract_small {n : Nat} (h : n + 15 ≤ maxJsonPathScanBytes) :
    ∃ e, extractJsonPaths platform redactor false (encode (text n)) false (byteLen (text n))
      secretPath = .ok e := by
  obtain ⟨x, hx⟩ := captureDocument_ok (depth_secretDocument n) secretPath
  exact ⟨_, extractJsonPaths_of_scannable (platform_text n) (scannable_secretPath.mpr h) hx⟩

theorem extract_large {n : Nat} (h : maxJsonPathScanBytes < n + 15) :
    ∃ e, extractJsonPaths platform redactor false (encode (text n)) false (byteLen (text n))
      secretPath = .error e := by
  have hscan : ¬ Scannable secretPath (byteLen (text n)) :=
    fun hscan => not_lt.mpr (scannable_secretPath.mp hscan) h
  exact (extractJsonPaths_of_not_scannable hscan).imp fun _ he => he.1

end Sample

open Sample (platform redactor)

/-- With a secret as long as the scan limit the body is refused; with a short one it is not. -/
theorem large_secret_refused :
    (Sample.platform.fromSlice (encode (Sample.text 1)) = .ok (Sample.secretDocument 1) ∧
      Sample.platform.fromSlice (encode (Sample.text maxJsonPathScanBytes)) =
        .ok (Sample.secretDocument maxJsonPathScanBytes) ∧
      depth (Sample.secretDocument 1) < 128 ∧
      depth (Sample.secretDocument maxJsonPathScanBytes) < 128 ∧
      Agree (Secret platform redactor) (Sample.secretDocument 1)
        (Sample.secretDocument maxJsonPathScanBytes)) ∧
    (∃ e, extractJsonPaths platform redactor false (encode (Sample.text 1)) false
      (byteLen (Sample.text 1)) Sample.secretPath = .ok e) ∧
    ∃ e, extractJsonPaths platform redactor false
      (encode (Sample.text maxJsonPathScanBytes)) false
      (byteLen (Sample.text maxJsonPathScanBytes)) Sample.secretPath = .error e :=
  ⟨⟨Sample.platform_text 1, Sample.platform_text maxJsonPathScanBytes,
      Sample.depth_secretDocument 1, Sample.depth_secretDocument maxJsonPathScanBytes,
      Sample.agree_documents 1 maxJsonPathScanBytes⟩,
    Sample.extract_small (by decide),
    Sample.extract_large (Nat.lt_add_of_pos_right (by decide))⟩

theorem redaction_noninterference_password :
    Sample.platform.fromSlice (encode (Sample.text 1)) = .ok (Sample.secretDocument 1) ∧
    Sample.platform.fromSlice (encode (Sample.text 2)) = .ok (Sample.secretDocument 2) ∧
    (redactText platform redactor (Sample.text 1)).value =
      (redactText platform redactor (Sample.text 2)).value :=
  ⟨Sample.platform_text 1, Sample.platform_text 2,
    (redaction_noninterference (Sample.platform_text 1) (Sample.platform_text 2)
      (Sample.depth_secretDocument 1) (Sample.depth_secretDocument 2)
      (Sample.agree_documents 1 2)).1⟩

end AiProxy.Mcp
