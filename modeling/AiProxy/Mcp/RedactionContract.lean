import AiProxy.Mcp.TextSearch

/-!
# What redaction must not show

Two documents that differ only in the values of members with secret names are to look the same after
redaction, whatever the values are and whichever way the document is read. A `null` in such a place
counts: it is redacted without a record.
-/

namespace AiProxy.Mcp

open Json (Bytes Value)
open Utf8 (chars)

variable {N : Type}

def Secret (p : Platform N) (r : Redactor) (key : Bytes) : Prop :=
  ∃ c, classify p r (chars key) = some c ∧ c.sensitivity = .secret

section Agree

variable (secret : Bytes → Prop)

mutual

/-- Two documents agree outside the values, other than `null`, of the members with secret names. -/
def Agree : Value N → Value N → Prop
  | .null, w => w = .null
  | .bool a, w => w = .bool a
  | .number a, w => w = .number a
  | .string a, w => w = .string a
  | .array vs, w => ∃ ws, w = .array ws ∧ ItemsAgree vs ws
  | .object ms, w => ∃ ns, w = .object ns ∧ MembersAgree ms ns
termination_by structural v => v

def ItemsAgree : List (Value N) → List (Value N) → Prop
  | [], ws => ws = []
  | v :: vs, ws => ∃ w us, ws = w :: us ∧ Agree v w ∧ ItemsAgree vs us
termination_by structural vs => vs

def MembersAgree : List (Bytes × Value N) → List (Bytes × Value N) → Prop
  | [], ns => ns = []
  | m :: ms, ns => ∃ n us, ns = n :: us ∧ MemberAgree m n ∧ MembersAgree ms us
termination_by structural ms => ms

def MemberAgree : Bytes × Value N → Bytes × Value N → Prop
  | (k, v), n =>
    ∃ w, n = (k, w) ∧ (Agree v w ∨ secret k ∧ v ≠ .null ∧ w ≠ .null)
termination_by structural m => m

end

end Agree

def JsonPathExtraction.view (e : JsonPathExtraction N) : List (Value N) × Bool × List Text :=
  (e.values, e.truncated, e.redactedFields)

/-- The body is small enough for an extraction of these paths. -/
def Scannable (segments : List (List JsonPathSegment)) (size : Nat) : Prop :=
  size ≤ maxJsonPathScanBytes ∧ (segments.any List.isEmpty = true → size ≤ rootPathScanBytes)

end AiProxy.Mcp
