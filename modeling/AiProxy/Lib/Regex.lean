import AiProxy.Lib.Utf8

/-!
# Regular expressions with leftmost-first matching

A backtracking matcher: `run` lists every way in which an expression can match at a place, in the
order of preference, and a match is the first of them (`Regex.pattern`). A text is searched from the
left for non-overlapping matches (`scan`); the places of groups are kept as distances from the start of
the match.
-/

namespace AiProxy

/-- An expression. Repetition is greedy. -/
inductive Regex where
  | empty
  | char (p : Char → Bool)
  | seq (r s : Regex)
  | alt (r s : Regex)
  | star (r : Regex)
  | group (i : Nat) (r : Regex)
  | wordBoundary (isWord : Char → Bool)

namespace Regex

def plus (r : Regex) : Regex := .seq r (.star r)

def opt (r : Regex) : Regex := .alt r .empty

def times (r : Regex) : Nat → Regex
  | 0 => .empty
  | n + 1 => .seq r (r.times n)

def atLeast (r : Regex) (n : Nat) : Regex := .seq (r.times n) (.star r)

def all : List Regex → Regex
  | [] => .empty
  | r :: rs => .seq r (all rs)

def anyOf (r : Regex) : List Regex → Regex
  | [] => r
  | s :: rs => .alt r (s.anyOf rs)

/-- A place in a text while an expression is matched: the character before it, what follows it, how
far it is from the start of the match, and the groups matched so far. -/
structure Cursor where
  prev : Option Char
  rest : Text
  pos : Nat
  groups : List (Nat × Nat × Nat)

namespace Cursor

def start (prev : Option Char) (t : Text) : Cursor := ⟨prev, t, 0, []⟩

def next (c : Cursor) (x : Char) (xs : Text) : Cursor := ⟨some x, xs, c.pos + 1, c.groups⟩

def close (i : Nat) (c d : Cursor) : Cursor := { d with groups := (i, c.pos, d.pos) :: d.groups }

end Cursor

/-- The repetitions of a step, more of them first. A step that stays in its place is not
repeated. -/
def iterate (step : Cursor → List Cursor) : Nat → Cursor → List Cursor
  | 0, c => [c]
  | n + 1, c =>
    ((step c).filter fun d => c.pos < d.pos).flatMap (iterate step n) ++ [c]

/-- The ways of matching at a place, the preferred one first. -/
def run : Regex → Cursor → List Cursor
  | .empty, c => [c]
  | .char p, c =>
    match c.rest with
    | [] => []
    | x :: xs => if p x then [c.next x xs] else []
  | .seq r s, c => (r.run c).flatMap s.run
  | .alt r s, c => r.run c ++ s.run c
  | .star r, c => iterate r.run c.rest.length c
  | .group i r, c => (r.run c).map (c.close i)
  | .wordBoundary isWord, c => if c.prev.any isWord != c.rest.head?.any isWord then [c] else []

end Regex

/-- A match: its length and its groups, as distances from its start. -/
structure Hit where
  len : Nat
  groups : List (Nat × Nat × Nat)

/-- The match at a place, given the character before it and what follows. -/
abbrev Pattern := Option Char → Text → Option Hit

def Regex.pattern (r : Regex) : Pattern := fun prev t =>
  (r.run (.start prev t)).head?.map fun c => ⟨c.pos, c.groups⟩

inductive Piece where
  | copy (c : Char)
  | hit (text : Text) (groups : List (Nat × Nat × Nat))

namespace Pattern

/-- The matches in a text from the left, with what stands between them. `skip` characters belong to
the match found last; an empty match is not taken right after another one. -/
def scan (m : Pattern) : Option Char → Nat → Bool → Text → List Piece
  | prev, skip, after, [] =>
    if skip = 0 ∧ after = false then
      match m prev [] with
      | some h => [.hit [] h.groups]
      | none => []
    else []
  | prev, skip, after, x :: xs =>
    match skip with
    | k + 1 => m.scan (some x) k true xs
    | 0 =>
      match m prev (x :: xs) with
      | none => .copy x :: m.scan (some x) 0 false xs
      | some h =>
        match h.len with
        | 0 =>
          (if after then [] else [.hit [] h.groups]) ++ .copy x :: m.scan (some x) 0 false xs
        | k + 1 => .hit ((x :: xs).take (k + 1)) h.groups :: m.scan (some x) k true xs

def pieces (m : Pattern) (t : Text) : List Piece := m.scan none 0 false t

def groupText (matched : Text) (groups : List (Nat × Nat × Nat)) (i : Nat) : Text :=
  match groups.find? fun g => g.1 = i with
  | some (_, start, stop) => (matched.take stop).drop start
  | none => []

variable {α : Type}

def replacePiece (f : Text → (Nat → Text) → Text × List α) : Piece → Text × List α
  | .copy c => ([c], [])
  | .hit t groups => f t (groupText t groups)

def replaceAll (m : Pattern) (f : Text → (Nat → Text) → Text × List α) (t : Text) :
    Text × List α :=
  ((m.pieces t).flatMap fun p => (replacePiece f p).1,
    (m.pieces t).flatMap fun p => (replacePiece f p).2)

end Pattern

end AiProxy
