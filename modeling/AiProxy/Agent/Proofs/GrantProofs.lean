import AiProxy.Agent.GrantStore
import AiProxy.Lib.Fallible

/-!
# What the calls do to the list of grants

While the identifiers in the store differ, a call that changes the first grant it finds maps the list
(`onGrant`).
-/

namespace AiProxy.Agent

open List

variable {grants : List AgentGrant}
variable {grant : AgentGrant} {f : AgentGrant → AgentGrant} {id : Text} {ids : List Text}
  {indexes : List Nat}

/-! ## The list of grants -/

def onGrant (id : Text) (f : AgentGrant → AgentGrant) (grant : AgentGrant) : AgentGrant :=
  if grant.id = id then f grant else grant

/-- The identifiers in the store differ, and each grant is its own request. -/
structure Keyed (grants : List AgentGrant) : Prop where
  nodup : (grants.map (·.id)).Nodup
  request : ∀ grant ∈ grants, grant.requestId = grant.id

theorem Keyed.tail (h : Keyed (grant :: grants)) : Keyed grants :=
  ⟨(nodup_cons.mp h.nodup).2, fun g hg => h.request g (mem_cons_of_mem grant hg)⟩

theorem Keyed.not_mem (h : Keyed (grant :: grants)) : ∀ g ∈ grants, g.id ≠ grant.id := by
  intro g hg he
  exact (nodup_cons.mp h.nodup).1 (mem_map.mpr ⟨g, hg, he⟩)

theorem Keyed.eq_of_id (h : Keyed grants) {a b : AgentGrant} (ha : a ∈ grants) (hb : b ∈ grants)
    (hab : a.id = b.id) : a = b := inj_on_of_nodup_map h.nodup ha hb hab

theorem Keyed.map (h : Keyed grants)
    (hf : ∀ grant ∈ grants, (f grant).id = grant.id ∧ (f grant).requestId = grant.requestId) :
    Keyed (grants.map f) := by
  constructor
  · have hids : (grants.map f).map (·.id) = grants.map (·.id) := by
      rw [map_map]
      exact map_congr_left fun grant hgrant => (hf grant hgrant).1
    rw [hids]
    exact h.nodup
  · refine forall_mem_map.mpr fun grant hgrant => ?_
    rw [(hf grant hgrant).2, (hf grant hgrant).1, h.request grant hgrant]

theorem map_onGrant_of_not_mem
    (h : ∀ grant ∈ grants, grant.id ≠ id) : grants.map (onGrant id f) = grants := by
  refine (map_congr_left fun grant hgrant => ?_).trans (map_id grants)
  exact if_neg (h grant hgrant)

theorem updateFirst_eq_map (h : Keyed grants) {p : AgentGrant → Bool}
    (hp : ∀ grant ∈ grants, p grant = (grant.id == id)) (f : AgentGrant → AgentGrant) :
    updateFirst p f grants = grants.map (onGrant id f) := by
  induction grants with
  | nil => rfl
  | cons grant grants ih =>
    have hgrant := hp grant mem_cons_self
    rw [updateFirst, map_cons, hgrant]
    by_cases he : grant.id = id
    · rw [if_pos (by simpa using he), onGrant, if_pos he]
      rw [map_onGrant_of_not_mem fun g hg => he ▸ h.not_mem g hg]
    · rw [if_neg (by simpa using he), onGrant, if_neg he,
        ih h.tail fun g hg => hp g (mem_cons_of_mem grant hg)]

theorem Keyed.requestTest (h : Keyed grants) (id : Text) :
    ∀ grant ∈ grants, (grant.requestId == id) = (grant.id == id) := by
  intro grant hgrant
  rw [h.request grant hgrant]

theorem find?_id (h : grants.find? (·.id == id) = some grant) : grant ∈ grants ∧ grant.id = id :=
  ⟨mem_of_find?_eq_some h, by simpa using find?_some h⟩

theorem Keyed.find?_requestId (hk : Keyed grants)
    (h : grants.find? (·.requestId == id) = some grant) : grant ∈ grants ∧ grant.id = id := by
  have hmem := mem_of_find?_eq_some h
  have hid : grant.requestId = id := by simpa using find?_some h
  exact ⟨hmem, (hk.request grant hmem).symm.trans hid⟩

theorem Keyed.not_mem_of_find?_requestId (hk : Keyed grants)
    (h : grants.find? (·.requestId == id) = none) : ∀ grant ∈ grants, grant.id ≠ id := by
  intro grant hgrant
  have hne := find?_eq_none.mp h grant hgrant
  rw [hk.request grant hgrant] at hne
  simpa using hne

theorem Keyed.find?_requestId_of_mem (hk : Keyed grants) (h : grant ∈ grants) :
    grants.find? (·.requestId == grant.id) = some grant := by
  cases hf : grants.find? (·.requestId == grant.id) with
  | none =>
    have hne := find?_eq_none.mp hf grant h
    rw [hk.request grant h] at hne
    exact absurd hne (by simp)
  | some found =>
    obtain ⟨hmem, hid⟩ := hk.find?_requestId hf
    rw [hk.eq_of_id hmem h hid]

theorem Keyed.onGrant (hk : Keyed grants) (h : grant ∈ grants)
    (hf : (f grant).id = grant.id ∧ (f grant).requestId = grant.requestId) :
    Keyed (grants.map (onGrant grant.id f)) ∧ f grant ∈ grants.map (onGrant grant.id f) := by
  refine ⟨hk.map fun g hg => ?_, mem_map.mpr ⟨grant, h, if_pos rfl⟩⟩
  unfold Agent.onGrant
  split
  · rename_i hgid
    rw [hk.eq_of_id hg h hgid]
    exact hf
  · exact ⟨rfl, rfl⟩

/-! ## What a call does to one grant

Every call but `request` and `clear` maps the grants. -/

def SameKey (f : AgentGrant → AgentGrant) : Prop :=
  ∀ grant, (f grant).id = grant.id ∧ (f grant).requestId = grant.requestId

theorem sameKey_refresh (now : Time) : SameKey (AgentGrant.refresh now) := by
  intro grant
  unfold AgentGrant.refresh
  split <;> exact ⟨rfl, rfl⟩

theorem sameKey_finishPending (now : Time) (status : AgentGrantStatus) :
    SameKey (AgentGrant.finishPending now status) := by
  intro grant
  unfold AgentGrant.finishPending
  split
  · split <;> exact ⟨rfl, rfl⟩
  · exact ⟨rfl, rfl⟩

theorem sameKey_revoke : SameKey AgentGrant.revoke := by
  intro grant
  unfold AgentGrant.revoke
  split <;> exact ⟨rfl, rfl⟩

theorem sameKey_consume : SameKey AgentGrant.consume := by
  intro grant
  unfold AgentGrant.consume
  split <;> exact ⟨rfl, rfl⟩

theorem sameKey_finish (completion : Completion) : SameKey (AgentGrant.finish completion) := by
  intro grant
  unfold AgentGrant.finish
  split <;> exact ⟨rfl, rfl⟩

theorem refresh_cases (now : Time) (grant : AgentGrant) : grant.refresh now = grant ∨
      grant.status.live = true ∧ grant.expiresAt ≤ now ∧
        grant.refresh now = { grant with status := .expired, remainingUses := 0 } := by
  unfold AgentGrant.refresh
  split
  · rename_i h
    simp only [Bool.and_eq_true, decide_eq_true_eq] at h
    exact .inr ⟨h.1, h.2, rfl⟩
  · exact .inl rfl

theorem checkConsume_ok {params : ConsumeAgentGrantParams} {requester : GrantRequester}
    (h : checkConsume params requester grants = .ok grant) :
    grant ∈ grants ∧ grant.id = params.grantId ∧ grant.status = .approved ∧
      0 < grant.remainingUses := by
  unfold checkConsume at h
  split at h
  · cases h
  · rename_i found hfind
    split at h
    · cases h
    · split at h
      · cases h
      · rename_i husable
        cases h
        obtain ⟨hstatus, huses⟩ := not_or.mp husable
        obtain ⟨hmem, hid⟩ := find?_id hfind
        exact ⟨hmem, hid, Decidable.not_not.mp hstatus, Nat.pos_of_ne_zero huses⟩

/-- The grants at the places `indexes` have the identifiers `ids`, and one use of each is left. -/
def Places (grants : List AgentGrant) (ids : List Text) (indexes : List Nat) : Prop :=
  List.Forall₂ (fun id index => ∃ grant, grants[index]? = some grant ∧ grant.id = id ∧
    grant.status.usable = true ∧ 0 < grant.remainingUses) ids indexes

theorem reserveIndexes_ok {done : List Text} {result : List Nat}
    (h : reserveIndexes grants ids indexes = .ok result) (hdone : Places grants done indexes)
    (hnodup : indexes.Nodup) : Places grants (done ++ ids) result ∧ result.Nodup := by
  induction ids generalizing done indexes with
  | nil =>
    cases h
    rw [append_nil]
    exact ⟨hdone, hnodup⟩
  | cons id ids ih =>
    rw [reserveIndexes] at h
    split at h
    · cases h
    · rename_i index hindex
      split at h
      · cases h
      · rename_i hnew
        split at h
        · cases h
        · rename_i grant hgrant
          split at h
          · cases h
          · rename_i husable
            obtain ⟨hstatus, huses⟩ := not_or.mp husable
            have hid : grant.id = id := by
              obtain ⟨hlt, hp, -⟩ := findIdx?_eq_some_iff_getElem.mp hindex
              rw [getElem?_eq_getElem hlt, Option.some.injEq] at hgrant
              simpa [hgrant] using hp
            have hplace : Places grants (done ++ [id]) (indexes ++ [index]) :=
              rel_append hdone (.cons ⟨grant, hgrant, hid, by simpa using hstatus,
                Nat.pos_of_ne_zero huses⟩ .nil)
            have hnodup' : (indexes ++ [index]).Nodup := by
              rw [nodup_append]
              refine ⟨hnodup, nodup_singleton index, ?_⟩
              intro a ha b hb hab
              rw [mem_singleton.mp hb] at hab
              exact hnew (by simpa [hab] using ha)
            have hrest := ih h hplace hnodup'
            rwa [append_assoc, singleton_append] at hrest

theorem Places.exists_place (h : Places grants ids indexes) (hid : id ∈ ids) :
    ∃ index ∈ indexes, ∃ grant, grants[index]? = some grant ∧ grant.id = id ∧
      grant.status.usable = true ∧ 0 < grant.remainingUses := by
  induction h with
  | nil => cases hid
  | cons hplace hrest ih =>
    rcases mem_cons.mp hid with rfl | htail
    · exact ⟨_, mem_cons_self, hplace⟩
    · obtain ⟨index, hindex, hplace'⟩ := ih htail
      exact ⟨index, mem_cons_of_mem _ hindex, hplace'⟩

theorem Keyed.index_eq (h : Keyed grants) {i j : Nat} {a b : AgentGrant} (ha : grants[i]? = some a)
    (hb : grants[j]? = some b) (hab : a.id = b.id) : i = j := by
  have hlt := (List.getElem?_eq_some_iff.mp ha).1
  refine (getElem?_inj (by simpa using hlt) h.nodup).mp ?_
  rw [getElem?_map, getElem?_map, ha, hb, Option.map_some, Option.map_some, hab]

theorem Places.nodup (hplaces : Places grants ids indexes) (h : Keyed grants)
    (hnodup : indexes.Nodup) : ids.Nodup := by
  induction hplaces with
  | nil => exact nodup_nil
  | cons hplace hrest ih =>
    rename_i id index ids indexes
    obtain ⟨hnew, htail⟩ := nodup_cons.mp hnodup
    refine nodup_cons.mpr ⟨fun hid => ?_, ih htail⟩
    obtain ⟨grant, hgrant, hgid, -, -⟩ := hplace
    obtain ⟨index', hindex', grant', hgrant', hgid', -⟩ := Places.exists_place hrest hid
    have heq : index = index' := h.index_eq hgrant hgrant' (hgid.trans hgid'.symm)
    exact hnew (heq ▸ hindex')

/-- A wait whose deadline has passed writes its copy of the grant back. -/
def Waiter.expired (waiter : Waiter) : AgentGrant := { waiter.grant with status := .expired }

section

variable (h : Keyed grants) (persisted : Except String Unit)

include h

theorem Keyed.refreshExpired (now : Time) : Keyed (refreshExpired now grants) :=
  h.map fun grant _ => sameKey_refresh now grant

theorem approve_cases (now : Time) (id : Text) (option : AgentGrantApprovalOption) :
    (∃ error, approve now persisted id option grants = (grants, .error error)) ∨
    ∃ grant ∈ grants, grant.id = id ∧ grant.status = .pending ∧
      ((∃ error, approve now persisted id option grants =
          (grants.map (onGrant id ({ · with status := .expired })), .error error)) ∨
        approve now persisted id option grants =
          (grants.map (onGrant id (AgentGrant.approved option now)),
            written persisted (grant.approved option now))) := by
  unfold approve
  split
  · exact .inl ⟨_, rfl⟩
  · rename_i grant hfind
    obtain ⟨hmem, hid⟩ := h.find?_requestId hfind
    split
    · exact .inl ⟨_, rfl⟩
    · rename_i hpending
      simp only [ne_eq, Decidable.not_not] at hpending
      split
      · refine .inr ⟨grant, hmem, hid, hpending, .inl ?_⟩
        rw [updateFirst_eq_map h (h.requestTest id)]
        cases persisted with
        | error error => exact ⟨error, rfl⟩
        | ok _ => exact ⟨_, rfl⟩
      · split
        · exact .inl ⟨_, rfl⟩
        · split
          · exact .inl ⟨_, rfl⟩
          · refine .inr ⟨grant, hmem, hid, hpending, .inr ?_⟩
            rw [updateFirst_eq_map h (h.requestTest id)]

theorem deny_fst (now : Time) (id : Text) : (deny now persisted id grants).1 =
      grants.map (onGrant id (AgentGrant.finishPending now .denied)) := by
  unfold deny finishPending
  cases hfind : grants.find? (·.requestId == id) with
  | none => exact (map_onGrant_of_not_mem (h.not_mem_of_find?_requestId hfind)).symm
  | some grant => exact updateFirst_eq_map h (h.requestTest id) _

theorem revoke_fst (id : Text) :
    (revoke persisted id grants).1 = grants.map (onGrant id AgentGrant.revoke) := by
  unfold revoke
  cases hfind : grants.find? (·.id == id) with
  | none =>
    refine (map_onGrant_of_not_mem fun grant hgrant => ?_).symm
    simpa using find?_eq_none.mp hfind grant hgrant
  | some grant => exact updateFirst_eq_map h (fun _ _ => rfl) _

theorem consume_fst (now : Time) (params : ConsumeAgentGrantParams) (requester : GrantRequester) :
    (∃ error, checkConsume params requester (refreshExpired now grants) = .error error ∧
      (consume now persisted params requester grants).1 = refreshExpired now grants) ∨
    ∃ grant, checkConsume params requester (refreshExpired now grants) = .ok grant ∧
      (consume now persisted params requester grants).1 =
        (refreshExpired now grants).map (onGrant params.grantId AgentGrant.consume) := by
  unfold consume
  cases hcheck : checkConsume params requester (refreshExpired now grants) with
  | error error => exact .inl ⟨error, rfl, by simp only [hcheck]⟩
  | ok grant =>
    refine .inr ⟨grant, rfl, ?_⟩
    simp only [hcheck]
    exact updateFirst_eq_map (h.refreshExpired now) (fun _ _ => rfl) _

theorem foldl_modify_eq_map (hplaces : Places grants ids indexes)
    {done : List Text} (hdisjoint : ∀ id ∈ ids, id ∉ done) (hids : ids.Nodup) :
    indexes.foldl (fun grants index => grants.modify index AgentGrant.reserve)
        (grants.map fun grant => if grant.id ∈ done then grant.reserve else grant) =
      grants.map fun grant => if grant.id ∈ done ++ ids then grant.reserve else grant := by
  induction hplaces generalizing done with
  | nil => simp
  | cons hplace hrest ih =>
    rename_i id index ids indexes
    obtain ⟨grant, hgrant, hid, -, -⟩ := hplace
    have hnew : id ∉ done := hdisjoint id mem_cons_self
    have hone : (grants.map fun g => if g.id ∈ done then g.reserve else g).modify index
          AgentGrant.reserve =
        grants.map fun g => if g.id ∈ done ++ [id] then g.reserve else g := by
      apply ext_getElem?
      intro i
      rw [getElem?_modify, getElem?_map, getElem?_map]
      by_cases hi : index = i
      · subst hi
        rw [hgrant]
        simp [hid, hnew]
      · cases hg : grants[i]? with
        | none => simp
        | some g =>
          have hne : g.id ≠ id := fun he => hi (h.index_eq hgrant hg (hid.trans he.symm))
          simp [hi, hne]
    have hdisjoint' : ∀ id' ∈ ids, id' ∉ done ++ [id] := by
      intro id' hid' hmem
      rcases mem_append.mp hmem with hd | hs
      · exact hdisjoint id' (mem_cons_of_mem id hid') hd
      · rw [mem_singleton.mp hs] at hid'
        exact (nodup_cons.mp hids).1 hid'
    rw [foldl_cons, hone, ih hdisjoint' (nodup_cons.mp hids).2]
    simp only [append_assoc, singleton_append]

theorem reserveGrants_ok {grants' : List AgentGrant} (hr : reserveGrants grants ids = .ok grants') :
    ids.Nodup ∧
      (∀ id ∈ ids, ∃ grant ∈ grants, grant.id = id ∧ grant.status.usable = true ∧
        0 < grant.remainingUses) ∧
      grants' = grants.map fun grant => if grant.id ∈ ids then grant.reserve else grant := by
  obtain ⟨indexes, hindexes, hresult⟩ := Fallible.bind_ok_iff.mp hr
  obtain ⟨hplaces, hnodup⟩ := reserveIndexes_ok hindexes .nil nodup_nil
  rw [nil_append] at hplaces
  have hids : ids.Nodup := hplaces.nodup h hnodup
  refine ⟨hids, fun id hid => ?_, ?_⟩
  · obtain ⟨index, -, grant, hgrant, hrest⟩ := hplaces.exists_place hid
    exact ⟨grant, mem_of_getElem? hgrant, hrest⟩
  · have hnone : ∀ id ∈ ids, id ∉ ([] : List Text) := fun id _ => not_mem_nil
    have hfold := foldl_modify_eq_map h hplaces hnone hids
    simp only [not_mem_nil, if_false, map_id', nil_append] at hfold
    rw [← hfold]
    exact (Except.ok.inj hresult).symm

theorem replaceGrant_eq_map (updated : AgentGrant) :
    replaceGrant grants updated = grants.map (onGrant updated.id fun _ => updated) :=
  updateFirst_eq_map h (fun _ _ => rfl) _

/-- A turn of the loop leaves the list as it is, or writes the copy back after the deadline; it waits
again only for a grant that its copy has as pending. -/
theorem waitTurn_cases (waiter : Waiter) (checked : Nat) :
    ((waitTurn waiter checked grants).1 = grants ∨
      waiter.grant.status = .pending ∧ waiter.deadline ≤ checked ∧
        (waitTurn waiter checked grants).1 =
          grants.map (onGrant waiter.grant.id fun _ => waiter.expired)) ∧
    ∀ waiter', (waitTurn waiter checked grants).2.waiter? = some waiter' →
      waiter' = waiter ∧ waiter.grant.status = .pending := by
  unfold waitTurn
  split
  · exact ⟨.inl rfl, fun waiter' hw => by cases hw⟩
  · rename_i hpending
    have hpending := Decidable.not_not.mp hpending
    split
    · rename_i hdeadline
      exact ⟨.inr ⟨hpending, hdeadline, replaceGrant_eq_map h waiter.expired⟩,
        fun waiter' hw => by cases hw⟩
    · refine ⟨.inl rfl, fun waiter' hw => ?_⟩
      cases hw
      exact ⟨rfl, hpending⟩

theorem waitTurn_overdue {waiter : Waiter} {checked : Nat}
    (hpending : waiter.grant.status = .pending) (hdeadline : waiter.deadline ≤ checked) :
    (waitTurn waiter checked grants).1 =
      grants.map (onGrant waiter.grant.id fun _ => waiter.expired) := by
  unfold waitTurn
  rw [if_neg (not_not.mpr hpending), if_pos hdeadline]
  exact replaceGrant_eq_map h waiter.expired

/-- The beginning of a wait leaves the list as it is or writes back the grant that it has just read,
which is pending. -/
theorem waitForGrant_cases (times : RequestTimes) (id : Text) :
    ((waitForGrant times id grants).1 = grants ∨
      ∃ waiter : Waiter, waiter.grant ∈ grants ∧ waiter.grant.id = id ∧
        waiter.grant.status = .pending ∧
        (waitForGrant times id grants).1 =
          grants.map (onGrant waiter.grant.id fun _ => waiter.expired)) ∧
    ∀ waiter, (waitForGrant times id grants).2.waiter? = some waiter →
      waiter.grant ∈ grants ∧ waiter.grant.status = .pending := by
  unfold waitForGrant
  split
  · exact ⟨.inl rfl, fun waiter hw => by cases hw⟩
  · rename_i initial hfind
    obtain ⟨hmem, hid⟩ := find?_id hfind
    obtain ⟨hlist, hwaits⟩ := waitTurn_cases h
      ⟨initial, times.started + ((initial.expiresAt - times.waiting).tdiv (seconds 1)).toNat *
        1000000000⟩ times.checked
    constructor
    · rcases hlist with hsame | ⟨hpending, -, hmap⟩
      · exact .inl hsame
      · exact .inr ⟨_, hmem, hid, hpending, hmap⟩
    · intro waiter hw
      obtain ⟨rfl, hpending⟩ := hwaits waiter hw
      exact ⟨hmem, hpending⟩

/-- The end of a wait leaves the list as it is, or writes back a copy after the deadline: after a
timeout the copy from before the wait, and otherwise the grant that it has just read. -/
theorem wake_cases (waiter : Waiter) (result : WaitResult) (checked : Nat) :
    ((wake waiter result checked grants).1 = grants ∨
      (result = .timedOut ∧ waiter.grant.status = .pending ∧ waiter.deadline ≤ checked ∧
        (wake waiter result checked grants).1 =
          grants.map (onGrant waiter.grant.id fun _ => waiter.expired)) ∨
      ∃ fresh : Waiter, fresh.grant ∈ grants ∧ fresh.grant.id = waiter.grant.id ∧
        fresh.grant.status = .pending ∧
        (wake waiter result checked grants).1 =
          grants.map (onGrant fresh.grant.id fun _ => fresh.expired)) ∧
    ∀ waiter', (wake waiter result checked grants).2.waiter? = some waiter' →
      waiter'.grant.status = .pending ∧ (waiter' = waiter ∨ waiter'.grant ∈ grants) := by
  cases result with
  | poisoned => exact ⟨.inl rfl, fun waiter' hw => by cases hw⟩
  | timedOut =>
    obtain ⟨hlist, hwaits⟩ := waitTurn_cases h waiter checked
    constructor
    · rcases hlist with hsame | ⟨hpending, hdeadline, hmap⟩
      · exact .inl hsame
      · exact .inr (.inl ⟨rfl, hpending, hdeadline, hmap⟩)
    · intro waiter' hw
      obtain ⟨rfl, hpending⟩ := hwaits waiter' hw
      exact ⟨hpending, .inl rfl⟩
  | notified =>
    unfold wake
    cases hfind : grants.find? (·.id == waiter.grant.id) with
    | none => exact ⟨.inl rfl, fun waiter' hw => by cases hw⟩
    | some updated =>
      obtain ⟨hmem, hid⟩ := find?_id hfind
      obtain ⟨hlist, hwaits⟩ := waitTurn_cases h { waiter with grant := updated } checked
      constructor
      · rcases hlist with hsame | ⟨hpending, -, hmap⟩
        · exact .inl hsame
        · exact .inr (.inr ⟨_, hmem, hid, hpending, hmap⟩)
      · intro waiter' hw
        obtain ⟨rfl, hpending⟩ := hwaits waiter' hw
        exact ⟨hpending, .inr hmem⟩

end

theorem trimGrants_suffix (grants : List AgentGrant) : trimGrants grants <:+ grants := by
  unfold trimGrants
  split
  · exact suffix_rfl
  · exact drop_suffix _ _

theorem existingGrant_some {key : Text} {now : Time}
    (h : existingGrant key now grants = some grant) :
    grant ∈ grants ∧ grantKeyFromGrant grant = key := by
  rcases Option.or_eq_some_iff.mp h with hfind | ⟨-, hfind⟩
  all_goals
    have hmem := mem_of_find?_eq_some hfind
    have htest := find?_some hfind
    simp only [Bool.and_eq_true, beq_iff_eq] at htest
    exact ⟨mem_reverse.mp hmem, htest.1⟩

/-- A request fails and changes nothing; or it looks at the grants whose time is not over, and answers
or waits for one of them; or it adds a new grant. -/
theorem request_cases (times : RequestTimes) (persisted : Except String Unit) (uuid : Text)
    (req : AgentGrantRequest) (requester : GrantRequester) (grants : List AgentGrant) :
    (∃ error, request times persisted uuid req requester grants = (grants, .done (.error error))) ∨
    (∃ result, request times persisted uuid req requester grants =
      (refreshExpired times.refreshed grants, .done result)) ∨
    (∃ existing ∈ refreshExpired times.refreshed grants,
      grantKeyFromGrant existing = grantKey requester.agentInstanceId requester.clientName
        requester.clientVersion req.capability req.actionFingerprint ∧
      request times persisted uuid req requester grants =
        waitForGrant times existing.id (refreshExpired times.refreshed grants)) ∨
    (∃ error, request times persisted uuid req requester grants =
      (trimGrants (refreshExpired times.refreshed grants) ++ [newGrant req requester uuid times.now],
        .done (.error error))) ∨
    request times persisted uuid req requester grants =
      waitForGrant times (grantId uuid)
        (trimGrants (refreshExpired times.refreshed grants) ++
          [newGrant req requester uuid times.now]) := by
  unfold request
  split
  · rename_i error _
    exact .inl ⟨error, rfl⟩
  · refine .inr ?_
    cases hexisting : existingGrant (grantKey requester.agentInstanceId requester.clientName
        requester.clientVersion req.capability req.actionFingerprint) times.now
        (refreshExpired times.refreshed grants) with
    | some existing =>
      simp only [hexisting]
      by_cases hpending : existing.status = .pending
      · rw [if_pos hpending]
        obtain ⟨hmem, hkey⟩ := existingGrant_some hexisting
        exact .inr (.inl ⟨existing, hmem, hkey, rfl⟩)
      · rw [if_neg hpending]
        exact .inl ⟨_, rfl⟩
    | none =>
      simp only [hexisting]
      refine .inr (.inr ?_)
      cases persisted with
      | error error => exact .inl ⟨error, rfl⟩
      | ok _ => exact .inr rfl

end AiProxy.Agent
