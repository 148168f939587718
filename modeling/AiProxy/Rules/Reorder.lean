import Mathlib.Data.List.Perm.Basic

/-!
# Reordering rules

`applyOrderedIdsWithinList` of `rules-priority.helpers.ts`: a scan over the rules that takes the next
id from a queue at every rule that is named.
-/

namespace AiProxy.Rules

variable {T Id : Type} [DecidableEq Id] (id : T → Id) (all : List T) (orderedIds : List Id)

/-- The callback of `all.map`, with what is left of the list and of the queue. -/
def assignSlots : List T → List Id → List T
  | [], _ => []
  | item :: items, queue =>
    if id item ∈ orderedIds then
      (queue.head?.bind fun nextId => all.find? (id · = nextId)).getD item ::
        assignSlots items queue.tail
    else item :: assignSlots items queue

def applyOrderedIdsWithinList : List T := assignSlots id all orderedIds all orderedIds

def namedRules : List T := all.filter (id · ∈ orderedIds)

def existingIds : List Id := orderedIds.filter (· ∈ all.map id)

/-- No rule is lost, the rules that are not named keep their places, and the named ones are in order. -/
structure Reordered (result : List T) : Prop where
  perm : result.Perm all
  unnamed : ∀ (i : Nat) item, all[i]? = some item → id item ∉ orderedIds → result[i]? = some item
  ordered : (namedRules id result orderedIds).map id = existingIds id all orderedIds

/-- The id for a slot exists and so do those before it, or it was removed and the rule in the slot is the
one that belongs there. -/
def SlotsFit : Prop :=
  ∀ (k : Nat) item nextId, (namedRules id all orderedIds)[k]? = some item →
    orderedIds[k]? = some nextId →
    nextId ∈ all.map id ∧ (∀ x ∈ orderedIds.take k, x ∈ all.map id) ∨
      nextId ∉ all.map id ∧ (existingIds id all orderedIds)[k]? = some (id item)

end AiProxy.Rules
