import AiProxy.Lib.StrSlice
import AiProxy.Lib.Wildcard

/-!
# Wildcard patterns

The matcher of rules against addresses. The text before the first and after the last wildcard is pinned to
the ends of the candidate; what stands between wildcards is searched for between them, with a second
attempt after each occurrence that does not lead to a match. Beside its answer a match says how many
substring searches it made.
-/

namespace AiProxy.Rules

open Str

structure Scan where
  matched : Bool
  searches : Nat
  deriving DecidableEq

/-- The loop of `match_middles` over the occurrences of a segment. -/
def tryOccurrences (candidate first : List Char) (windowEnd : Nat) (matchRest : Nat → Option Scan) :
    Nat → Nat → Option Scan
  | 0, _ => none
  | fuel + 1, occurrenceStart => do
    let window ← slice candidate occurrenceStart windowEnd
    match find first window with
    | none => some ⟨false, 1⟩
    | some relative =>
      let stop := occurrenceStart + relative + len first
      let inner ← matchRest stop
      if inner.matched then some ⟨true, 1 + inner.searches⟩
      else do
        -- the next attempt begins one character after this occurrence
        match ← slice candidate stop windowEnd with
        | [] => some ⟨false, 1 + inner.searches⟩
        | c :: _ =>
          let later ←
            tryOccurrences candidate first windowEnd matchRest fuel (stop + c.utf8Size)
          some ⟨later.matched, 1 + inner.searches + later.searches⟩

/-- `match_middles`. The loop runs at most once for each byte. -/
def matchMiddles (candidate : List Char) (windowEnd : Nat) : List (List Char) → Nat → Option Scan
  | [], _ => some ⟨true, 0⟩
  | first :: rest, windowStart =>
    tryOccurrences candidate first windowEnd
      (fun stop => if rest = [] then some ⟨true, 0⟩ else matchMiddles candidate windowEnd rest stop)
      (len candidate + 1) windowStart

/-- Head and tail may not overlap. -/
def matchWindow (middles : List (List Char)) (candidate : List Char) (windowStart windowEnd : Nat) :
    Option Scan :=
  if windowStart > windowEnd then some ⟨false, 0⟩
  else matchMiddles candidate windowEnd middles windowStart

def matchTail (tail : Option (List Char)) (middles : List (List Char)) (candidate : List Char)
    (windowStart : Nat) : Option Scan :=
  match tail with
  | none => matchWindow middles candidate windowStart (len candidate)
  | some tailPart =>
    if len candidate - windowStart < len tailPart then some ⟨false, 0⟩
    else do
      let text ← slice candidate windowStart (len candidate)
      if tailPart.isSuffixOf text then
        matchWindow middles candidate windowStart (len candidate - len tailPart)
      else some ⟨false, 0⟩

def matchHead (head tail : Option (List Char)) (middles : List (List Char))
    (candidate : List Char) : Option Scan :=
  match head with
  | none => matchTail tail middles candidate 0
  | some headPart =>
    if headPart.isPrefixOf candidate then matchTail tail middles candidate (len headPart)
    else some ⟨false, 0⟩

/-- The match once the pattern is cut into its non-empty segments. -/
def matchParts (leadingWildcard trailingWildcard : Bool) (parts : List (List Char))
    (candidate : List Char) : Option Scan :=
  match parts with
  | [] => some ⟨true, 0⟩
  | [part] =>
    match leadingWildcard, trailingWildcard with
    | false, false => some ⟨candidate = part, 0⟩
    | true, false => some ⟨part.isSuffixOf candidate, 0⟩
    | false, true => some ⟨part.isPrefixOf candidate, 0⟩
    | true, true => some ⟨(find part candidate).isSome, 1⟩
  | parts =>
    let head := if leadingWildcard then none else parts.head?
    let tail := if trailingWildcard then none else parts.getLast?
    let middleStart := head.isSome.toNat
    let middleEnd := parts.length - tail.isSome.toNat
    matchHead head tail ((parts.take middleEnd).drop middleStart) candidate

def patternParts (normalized : List Char) : List (List Char) :=
  (Wildcard.segments '*' normalized).filter (· ≠ [])

def wildcardScan (normalized candidate : List Char) : Option Scan :=
  if normalized = [] ∨ normalized = ['*'] then some ⟨true, 0⟩
  else
    matchParts (normalized.head? = some '*') (normalized.getLast? = some '*')
      (patternParts normalized) candidate

def wildcardMatches (normalized candidate : List Char) : Option Bool :=
  (wildcardScan normalized candidate).map Scan.matched

end AiProxy.Rules
