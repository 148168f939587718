import AiProxy.Mcp.Proofs.MarkerProofs
import AiProxy.Mcp.Proofs.NoninterferenceProofs
import AiProxy.Mcp.UrlRedaction

/-!
# Secrets in the query of a URL

The name of a parameter is classified as it is written in the URL.
-/

namespace AiProxy.Mcp

open List
open Json (Bytes)

variable {N : Type} {p : Platform N} {r : Redactor}

theorem splitOnce_char {c : Char} {a : Text} (h : c ∉ a) (b : Text) :
    splitOnce [c] (a ++ c :: b) = some (a, b) := by
  induction a with
  | nil => exact splitOnce_here rfl
  | cons d a ih =>
    rw [mem_cons, not_or] at h
    have hnot : ¬ [c] <+: d :: (a ++ c :: b) := fun hbegun =>
      h.1 (cons_prefix_cons.mp hbegun).1
    rw [cons_append, splitOnce_later hnot, ih h.2]
    rfl

theorem redactNamedScalar_secret {name : Text} (h : SecretName p r name) (value path : Text) :
    (redactNamedScalar p r name value path).1 = redactedValue := by
  obtain ⟨c, hc, hsecret⟩ := h
  rw [redactNamedScalar, hc]
  dsimp only
  rw [redactScalar, hsecret]

theorem redactUrl_queryUrl {base key value : Text} {before after : List Text} (hbase : '?' ∉ base)
    (hkey : '=' ∉ key) (hpairs : ∀ pair ∈ before ++ (key ++ '=' :: value) :: after, '&' ∉ pair) :
    redactUrl p r (queryUrl base before key after value) =
      queryUrl base (before.map (redactQueryPair p r)) key (after.map (redactQueryPair p r))
        (redactNamedScalar p r key value ("url.query." ++ key)).1 := by
  have hpair : redactQueryPair p r (key ++ '=' :: value) =
      key ++ '=' :: (redactNamedScalar p r key value ("url.query." ++ key)).1 := by
    rw [redactQueryPair]
    have hsplit : splitOnce "=" (key ++ '=' :: value) = some (key, value) :=
      splitOnce_char hkey value
    rw [hsplit]
  have hquery : splitOnce "?" (queryUrl base before key after value) =
      some (base, ['&'].intercalate (before ++ (key ++ '=' :: value) :: after)) :=
    splitOnce_char hbase _
  rw [redactUrl, hquery]
  dsimp only
  rw [splitOn_intercalate '&' hpairs (by simp), map_append, map_cons, hpair, queryUrl]

end AiProxy.Mcp
