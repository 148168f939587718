import AiProxy.Http.Calls
import AiProxy.Lib.Decimal

/-!
# Host patterns

`host_pattern.rs`: the patterns that select the hosts of a feature. The reading of address literals
(`str::parse::<IpAddr>`) is a parameter. A shift by the width of a word or more is an overflow, which
is `none`.
-/

namespace AiProxy.Tunnel

open Http (trim)

inductive IpAddr where
  | v4 (bits : BitVec 32)
  | v6 (bits : BitVec 128)

def parseU8 (text : List Char) : Option Nat := Decimal.parseUnsigned 256 text

def normalizeHostToken (value : String) : List Char :=
  let trimmed := (trim value).toList
  let unbracketed :=
    if trimmed.head? = some '[' ∧ trimmed.getLast? = some ']' then trimmed.tail.dropLast else trimmed
  (unbracketed.reverse.dropWhile (· = '.')).reverse

def checkedShl {w : Nat} (x : BitVec w) (n : Nat) : Option (BitVec w) :=
  if n < w then some (x <<< n) else none

/-- One family of `ip_in_cidr`. -/
def inPrefix {w : Nat} (ip network : BitVec w) (prefixLen : Nat) : Option Bool :=
  if prefixLen > w then some false
  else do
    let mask ← if prefixLen = 0 then some 0#w else checkedShl (BitVec.allOnes w) (w - prefixLen)
    return ip &&& mask = network &&& mask

def ipInCidr (ip network : IpAddr) (prefixLen : Nat) : Option Bool :=
  match ip, network with
  | .v4 ip, .v4 network => inPrefix ip network prefixLen
  | .v6 ip, .v6 network => inPrefix ip network prefixLen
  | _, _ => some false

/-- What follows `*.` or `.` at the beginning of a pattern. -/
def domainSuffix : List Char → Option (List Char)
  | '*' :: '.' :: suffix => some suffix
  | '.' :: suffix => some suffix
  | _ => none

variable (parseIp : List Char → Option IpAddr)

def matchesPattern (host pattern : List Char) : Option Bool :=
  let lowered := pattern.map Char.toLower
  if pattern = [] then some false
  else if pattern = ['*'] then some true
  else if '/' ∈ lowered then
    match parseIp host, parseIp (lowered.takeWhile (· ≠ '/')),
      parseU8 (lowered.dropWhile (· ≠ '/')).tail with
    | some ip, some network, some prefixLen => ipInCidr ip network prefixLen
    | _, _, _ => some false
  else
    match domainSuffix lowered with
    | some suffix => some (host = suffix || ('.' :: suffix).isSuffixOf host)
    | none => some (host = lowered)

def matchesAny (patterns : List String) (host : String) : Option Bool :=
  let host := normalizeHostToken host
  if host = [] then some false
  else patterns.anyM fun pattern =>
    matchesPattern parseIp (host.map Char.toLower) (normalizeHostToken pattern)

/-- The addresses are of one family, and their first `n` bits are the same. -/
def IpAddr.AgreeOn (n : Nat) : IpAddr → IpAddr → Prop
  | .v4 a, .v4 b => n ≤ 32 ∧ ∀ i < n, a.getMsbD i = b.getMsbD i
  | .v6 a, .v6 b => n ≤ 128 ∧ ∀ i < n, a.getMsbD i = b.getMsbD i
  | _, _ => False

/-- A block of addresses with the host, as an address, in it. -/
def InBlock (host pattern : List Char) : Prop :=
  ∃ network length net n ip, pattern = network ++ '/' :: length ∧ '/' ∉ network ∧
    parseIp network = some net ∧ parseU8 length = some n ∧ parseIp host = some ip ∧ ip.AgreeOn n net

/-- The meaning of a pattern that is not a block, in lower case. -/
def Names (host pattern : List Char) : Prop :=
  pattern = host ∨ ∃ suffix, (pattern = '*' :: '.' :: suffix ∨ pattern = '.' :: suffix) ∧
    (host = suffix ∨ '.' :: suffix <:+ host)

/-- A pattern with a slash is only ever a block. -/
def HostMatches (host pattern : List Char) : Prop :=
  let lowered := pattern.map Char.toLower
  pattern = ['*'] ∨ '/' ∉ lowered ∧ Names host lowered ∨ InBlock parseIp host lowered

end AiProxy.Tunnel
