import AiProxy.Rules.Rewrite
import AiProxy.Lib.ReadPublish

/-!
# The rewrite and map managers

Both managers edit one `RuleRuntime`: an immutable snapshot behind a mutex. A call takes the mutex to
read the snapshot, edits the list of its manager, and takes the mutex again to publish the list it has
made, next to the other manager's current list.
-/

namespace AiProxy.Rules

open Http (trim)

structure MapRule where
  id : String
  enabled : Bool
  mode : String
  name : String
  note : Option String
  preservePath : Bool
  preserveQuery : Bool
  priority : Nat
  sourcePattern : String
  targetValue : String
  matchType : Option String
  workspaceId : String

variable {N Regex : Type}

/-- A rewrite rule with its compiled pattern and the host it is locked to. -/
structure CompiledRewriteRule (N Regex : Type) where
  rule : RewriteRule N
  compiledMatch : Option Regex
  hostLock : Option String

structure CompiledMapRule where
  rule : MapRule
  hostLock : Option String

structure RuntimeRuleSnapshot (N Regex : Type) where
  generation : UInt64
  rewrite : List (CompiledRewriteRule N Regex)
  map : List CompiledMapRule

namespace RuntimeRuleSnapshot

def new : RuntimeRuleSnapshot N Regex := ⟨0, [], []⟩

def nextGeneration (generation : UInt64) : UInt64 :=
  if generation = 0xFFFFFFFFFFFFFFFF then generation else generation + 1

def replaceRewrite (current : RuntimeRuleSnapshot N Regex)
    (rewrite : List (CompiledRewriteRule N Regex)) : RuntimeRuleSnapshot N Regex :=
  ⟨nextGeneration current.generation, rewrite, current.map⟩

def replaceMap (current : RuntimeRuleSnapshot N Regex) (map : List CompiledMapRule) :
    RuntimeRuleSnapshot N Regex :=
  ⟨nextGeneration current.generation, current.rewrite, map⟩

end RuntimeRuleSnapshot

/-- Replace the first entry with the id of `x`, or add `x` at the end. -/
def upsert {α : Type} (id : α → String) (x : α) : List α → List α
  | [] => [x]
  | y :: ys => if id y = id x then x :: ys else y :: upsert id x ys

/-- `Vec::retain` of the entries with another id. -/
def retainOther {α : Type} (id : α → String) (ruleId : String) (entries : List α) : List α :=
  entries.filter fun entry => id entry ≠ ruleId

def CompiledRewriteRule.id (entry : CompiledRewriteRule N Regex) : String := entry.rule.id

def CompiledMapRule.id (entry : CompiledMapRule) : String := entry.rule.id

inductive HostLockUpdate where
  | preserve
  | set (hostLock : String)

inductive RuleKind where
  | rewrite
  | map
  deriving DecidableEq

inductive RuleCall (N : Type) where
  /-- `save_rule` and `save_rule_with_host_lock` of the rewrite manager. -/
  | storeRewrite (rule : RewriteRule N) (update : HostLockUpdate)
  | deleteRewrite (ruleId : String)
  /-- `save_rule` and `save_rule_with_host_lock` of the map manager. -/
  | storeMap (rule : MapRule) (update : HostLockUpdate)
  | deleteMap (ruleId : String)

section

-- `Regex::new`, with the errors left out
variable (regexNew : String → Option Regex)

def compileMatchRegex (matchType : Option String) (urlPattern : String) : Option Regex :=
  if matchType ≠ some "regex" then none else regexNew (trim urlPattern)

/-- The host lock of a stored rule: the new one, or that of the entry it replaces. -/
def HostLockUpdate.apply {α : Type} (id : α → String) (hostLock : α → Option String)
    (entries : List α) (ruleId : String) : HostLockUpdate → Option String
  | .set lock => some lock
  | .preserve => (entries.find? fun entry => id entry = ruleId).bind hostLock

def storeRewrite (rule : RewriteRule N) (update : HostLockUpdate)
    (current : List (CompiledRewriteRule N Regex)) : List (CompiledRewriteRule N Regex) :=
  upsert CompiledRewriteRule.id
    { rule := rule
      compiledMatch := compileMatchRegex regexNew rule.matching.matchType rule.matching.urlPattern
      hostLock := update.apply CompiledRewriteRule.id (·.hostLock) current rule.id } current

def storeMap (rule : MapRule) (update : HostLockUpdate) (current : List CompiledMapRule) :
    List CompiledMapRule :=
  upsert CompiledMapRule.id
    ⟨rule, update.apply CompiledMapRule.id (·.hostLock) current rule.id⟩ current

structure RuleLists (N Regex : Type) where
  rewrite : List (CompiledRewriteRule N Regex)
  map : List CompiledMapRule

def RuntimeRuleSnapshot.lists (snapshot : RuntimeRuleSnapshot N Regex) : RuleLists N Regex :=
  ⟨snapshot.rewrite, snapshot.map⟩

namespace RuleCall

/-- A call that runs alone: the rule is stored or is gone, and the other rules stay. -/
def run (lists : RuleLists N Regex) : RuleCall N → RuleLists N Regex
  | storeRewrite rule update =>
    { lists with rewrite := Rules.storeRewrite regexNew rule update lists.rewrite }
  | deleteRewrite ruleId =>
    { lists with rewrite := retainOther CompiledRewriteRule.id ruleId lists.rewrite }
  | storeMap rule update => { lists with map := Rules.storeMap rule update lists.map }
  | deleteMap ruleId => { lists with map := retainOther CompiledMapRule.id ruleId lists.map }

/-- The rewrite manager returns before publishing when it has no rule to delete; the map manager
publishes in any case. -/
def returnsAtOnce (read : RuntimeRuleSnapshot N Regex) : RuleCall N → Bool
  | deleteRewrite ruleId => !read.rewrite.any fun entry => entry.rule.id = ruleId
  | _ => false

def publish (read current : RuntimeRuleSnapshot N Regex) : RuleCall N → RuntimeRuleSnapshot N Regex
  | storeRewrite rule update =>
    current.replaceRewrite (Rules.storeRewrite regexNew rule update read.rewrite)
  | deleteRewrite ruleId =>
    current.replaceRewrite (retainOther CompiledRewriteRule.id ruleId read.rewrite)
  | storeMap rule update => current.replaceMap (Rules.storeMap rule update read.map)
  | deleteMap ruleId => current.replaceMap (retainOther CompiledMapRule.id ruleId read.map)

def target : RuleCall N → RuleKind × String
  | storeRewrite rule _ => (.rewrite, rule.id)
  | deleteRewrite ruleId => (.rewrite, ruleId)
  | storeMap rule _ => (.map, rule.id)
  | deleteMap ruleId => (.map, ruleId)

end RuleCall

/-- The rule of the call is in the list it was saved to, or not in the list it was deleted from. -/
def RuleLists.Shows (lists : RuleLists N Regex) : RuleCall N → Prop
  | .storeRewrite rule _ =>
    ∃ entry, (lists.rewrite.find? fun e => e.id = rule.id) = some entry ∧ entry.rule = rule
  | .deleteRewrite ruleId => ∀ entry ∈ lists.rewrite, entry.id ≠ ruleId
  | .storeMap rule _ =>
    ∃ entry, (lists.map.find? fun e => e.id = rule.id) = some entry ∧ entry.rule = rule
  | .deleteMap ruleId => ∀ entry ∈ lists.map, entry.id ≠ ruleId

theorem retainOther_eq_self {α : Type} {id : α → String} {ruleId : String} {entries : List α}
    (h : (entries.any fun entry => id entry = ruleId) = false) :
    retainOther id ruleId entries = entries := by
  rw [List.any_eq_false] at h
  refine List.filter_eq_self.mpr fun entry hentry => ?_
  simpa using h entry hentry

/-- `RuleRuntime` with the calls on it. -/
def ruleRuntime : Shared (RuntimeRuleSnapshot N Regex) (RuleCall N) (RuleLists N Regex) where
  view := RuntimeRuleSnapshot.lists
  spec call lists := call.run regexNew lists
  returnsAtOnce call read := call.returnsAtOnce read
  publish call read current := call.publish regexNew read current
  disjoint call other := call.target.1 ≠ other.target.1
  returns_spec := by
    intro call read hreturns
    cases call with
    | deleteRewrite ruleId =>
      have hnone : (read.rewrite.any fun entry => entry.id = ruleId) = false :=
        (Bool.not_eq_true' _).mp hreturns
      show RuleLists.mk (retainOther _ ruleId read.rewrite) read.map = ⟨read.rewrite, read.map⟩
      rw [retainOther_eq_self hnone]
    | storeRewrite rule update | storeMap rule update | deleteMap ruleId => cases hreturns
  publish_spec := by
    intro call read
    cases call <;> rfl
  publish_disjoint := by
    -- a list that was not read anew is still the one that was read
    intro call other read read' current hne hfresh
    cases call <;> cases other <;> first
      | exact absurd rfl hne
      | exact congrArg (RuleLists.mk · _) (congrArg RuleLists.rewrite hfresh)
      | exact congrArg (RuleLists.mk _) (congrArg RuleLists.map hfresh)

end

end AiProxy.Rules
