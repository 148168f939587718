import AiProxy.Sessions.Collector
import AiProxy.Sessions.Proofs.AgreementProofs

/-!
# Clears, deletes and the collector

A session that was sent is in the channel, in the hands of the collector, stored or dropped, and in one
of these places only (`CollectorInv.places`).
-/

namespace AiProxy.Sessions

open List
open CollectorPhase (inHand)

variable {Content : Type} {summaryMax : Nat} {s s' : CollectorState Content}
  {e : CollectorEvent Content} {u : SentUpdate Content}

variable {batch : List (SentUpdate Content)} {phase : CollectorPhase Content}
  {store : SessionStore Content}

def CollectorState.pending (s : CollectorState Content) : List (SentUpdate Content) :=
  s.recorded ++ (s.collector.inHand ++ s.channel)

open CollectorState (pending)

theorem mem_pending : u ∈ s.pending ↔ u ∈ s.channel ∨ u ∈ s.collector.inHand ∨ u ∈ s.recorded := by
  unfold pending
  rw [mem_append, mem_append]
  tauto

/-- While a session that was sent after the last clear or delete returned is the newest of its kind, none of
them runs, and the session is stored if the collector has recorded it. -/
structure Settled (s : CollectorState Content) : Prop where
  quiet : ∀ u ∈ s.sent, u.SentAfterLast s → s.allReturned = true
  stored : ∀ u ∈ s.recorded, u ∈ s.sent → u.SentAfterLast s → s.Stored u.update.id

/-- A step that neither sends nor drops sessions, and begins no clear or delete. -/
structure Moves (s s' : CollectorState Content) : Prop where
  pending : s'.pending = s.pending
  sent : s'.sent = s.sent
  dropped : s'.dropped = s.dropped
  generation : s'.generation = s.generation
  removals : s'.removals.length = s.removals.length
  settled : Settled s → Settled s'

def dropBatch (s : CollectorState Content) (generation : Nat) (batch : List (SentUpdate Content)) :
    CollectorState Content :=
  { s with
    lifecycleLocked := false
    collector := .loopStart
    dropped := s.dropped ++ batch.map (⟨·, s.since generation⟩) }

theorem moves_receive {batch' : List (SentUpdate Content)} {rest : List (SentUpdate Content)}
    (hhand : s.collector.inHand = batch) (hchannel : s.channel = u :: rest)
    (hphase : phase.inHand = batch') (hbatch : batch' = batch ++ [u]) :
    Moves s { s with channel := rest, collector := phase } := by
  refine ⟨?_, rfl, rfl, rfl, rfl, fun h => ⟨h.quiet, h.stored⟩⟩
  unfold pending
  rw [hhand, hchannel, hphase, hbatch, append_assoc]
  rfl

theorem moves_phase {locked : Bool} (h : phase.inHand = s.collector.inHand) :
    Moves s { s with lifecycleLocked := locked, collector := phase } := by
  refine ⟨?_, rfl, rfl, rfl, rfl, fun h => ⟨h.quiet, h.stored⟩⟩
  unfold pending
  rw [h]

/-- A clear or delete goes on only while no session has been sent after the last one returned. -/
theorem moves_removal {locked : Bool} {index : Nat} {removal : Removal} {before : RemovalPhase}
    {entry : Removal × RemovalPhase} (hget : s.removals[index]? = some (removal, before))
    (hruns : before ≠ .returned) :
    Moves s { s with
      store := store
      lifecycleLocked := locked
      removals := s.removals.set index entry } := by
  refine ⟨rfl, rfl, rfl, rfl, length_set, fun h => ?_⟩
  have hnone : ∀ u ∈ s.sent, u.allReturned = true →
      u.begun ≠ (s.removals.set index entry).length := by
    intro u hu hall hbegun
    have hquiet := all_eq_true.mp (h.quiet u hu ⟨hall, hbegun.trans length_set⟩) _
      (mem_of_getElem? hget)
    exact hruns (of_decide_eq_true hquiet)
  exact ⟨fun u hu hafter => absurd hafter.2 (hnone u hu hafter.1),
    fun u _ hu hafter => absurd hafter.2 (hnone u hu hafter.1)⟩

/-- The sessions of a batch are stored, and those that were before stay stored. -/
theorem stored_storeBatch {store' : SessionStore Content} {locked : Bool}
    (hstore : storeStep summaryMax s.store (.upsertSessionBatch (batch.map (·.update))) = some store')
    {id : Text} (hid : id ∈ (batch.map (·.update)).map (·.id) ∨ s.Stored id) :
    CollectorState.Stored { s with
      store := store'
      lifecycleLocked := locked
      collector := phase
      recorded := s.recorded ++ batch
      evicted := s.evicted.filter (· ∉ (batch.map (·.update)).map (·.id)) ++
        (listBatch summaryMax s.store.summaries (batch.map (·.update))).2 } id := by
  obtain ⟨hstorable, rfl⟩ := storeStep_some hstore
  have hids : (batch.map (·.update)).map (·.id) = (batch.map (·.update)).map (·.detail.summary.id) :=
    map_congr_left hstorable
  have hdetails : (batch.map (·.update)).map SessionUpdate.id =
      (batch.map (·.update.detail)).map (·.id) := by
    rw [map_map, map_map]
    rfl
  refine or_iff_not_imp_left.mpr fun hnot => ?_
  have hkept : id ∉ (listBatch summaryMax s.store.summaries (batch.map (·.update))).2 := fun hmem =>
    hnot (mem_append_right _ hmem)
  show id ∈ listedIds (Operation.perform _ _ _).summaries ∧ _ = KeyedList.last? _ _ (map _ (_ ++ _))
  rw [perform_batch_summaries, perform_batch_rows, KeyedList.lookup_without_of_not_mem hkept,
    KeyedList.lookup_upsertAll, map_append, KeyedList.last?_append, map_map]
  by_cases hbatch : id ∈ (batch.map (·.update)).map SessionUpdate.id
  · refine ⟨listed_of_not_removed (hids ▸ hbatch) hkept, ?_⟩
    cases hlast : KeyedList.last? (·.id) id (batch.map (·.update.detail)) with
    | none => exact absurd (hdetails ▸ hbatch) (KeyedList.last?_eq_none_iff.mp hlast)
    | some detail =>
      rw [Option.some_or]
      exact congrArg (Option.or · _) hlast
  · have hevicted : id ∉ s.evicted := fun hmem =>
      hnot (mem_append_left _ (mem_filter.mpr ⟨hmem, decide_eq_true hbatch⟩))
    obtain ⟨hlisted, hrow⟩ := (hid.resolve_left hbatch).resolve_left hevicted
    exact ⟨(mem_listBatch_iff.mpr (.inr hlisted)).resolve_left hkept, congrArg _ hrow⟩

theorem moves_store {store' : SessionStore Content} (hc : s.collector = .storing batch)
    (hstore : storeStep summaryMax s.store (.upsertSessionBatch (batch.map (·.update))) = some store') :
    Moves s { s with
      store := store'
      lifecycleLocked := false
      collector := .loopStart
      recorded := s.recorded ++ batch
      evicted := s.evicted.filter (· ∉ (batch.map (·.update)).map (·.id)) ++
        (listBatch summaryMax s.store.summaries (batch.map (·.update))).2 } := by
  refine ⟨?_, rfl, rfl, rfl, rfl, fun h => ⟨h.quiet, fun u hu hsent hafter => ?_⟩⟩
  · unfold pending
    rw [hc, append_assoc]
    rfl
  · refine stored_storeBatch hstore ?_
    rcases mem_append.mp hu with hold | hnew
    · exact .inr (h.stored u hold hsent hafter)
    · exact .inl (mem_map_of_mem (mem_map_of_mem hnew))

/-- The steps of the machine: sessions move on, a session is sent, a clear or delete begins, or a batch is
dropped. -/
theorem collectorStep_cases (h : collectorStep summaryMax s e = some s') :
    (LosesNothing s e ∧ Moves s s') ∨
    (∃ update, e = .send update ∧
      s' = { s with channel := s.channel ++ [newUpdate s update], sent := s.sent ++
        [newUpdate s update] }) ∨
    (∃ removal, e = .beginRemoval removal ∧
      s' = { s with generation := s.generation + 1, removals := s.removals ++ [(removal, .waiting)] }) ∨
    (∃ generation batch, e = .compare ∧ s.collector = .comparing generation batch ∧
      s.generation ≠ generation ∧ s' = dropBatch s generation batch) := by
  cases e with
  | send update => exact .inr (.inl ⟨update, rfl, (Option.some.inj h).symm⟩)
  | beginRemoval removal => exact .inr (.inr (.inl ⟨removal, rfl, (Option.some.inj h).symm⟩))
  | readGeneration | receiveOther =>
    simp only [collectorStep] at h
    split at h
    · next hc =>
      cases h
      exact .inl ⟨trivial, moves_phase (congrArg inHand hc).symm⟩
    · cases h
  | receive =>
    simp only [collectorStep] at h
    split at h
    · next hc hchannel =>
      cases h
      exact .inl ⟨trivial, moves_receive (congrArg inHand hc) hchannel rfl rfl⟩
    · cases h
  | tryReceive =>
    simp only [collectorStep] at h
    split at h
    · next hc hchannel =>
      split at h
      · cases h
        exact .inl ⟨trivial, moves_receive (congrArg inHand hc) hchannel rfl rfl⟩
      · cases h
    · cases h
  | batchFilled | lockCollector =>
    simp only [collectorStep] at h
    split at h
    · next hc =>
      split at h
      · cases h
      · cases h
        exact .inl ⟨trivial, moves_phase (congrArg inHand hc).symm⟩
    · cases h
  | storeBatch =>
    simp only [collectorStep] at h
    split at h
    · next hc =>
      obtain ⟨store, hstore, rfl⟩ := Option.map_eq_some_iff.mp h
      exact .inl ⟨trivial, moves_store hc hstore⟩
    · cases h
  | compare =>
    cases hc : s.collector with
    | comparing generation batch =>
      simp only [collectorStep, hc] at h
      by_cases hg : s.generation = generation
      · rw [if_pos hg] at h
        cases h
        refine .inl ⟨?_, moves_phase (congrArg inHand hc).symm⟩
        simp only [LosesNothing, hc]
        exact fun hne => absurd hg hne
      · rw [if_neg hg] at h
        exact .inr (.inr (.inr ⟨generation, batch, rfl, rfl, hg, (Option.some.inj h).symm⟩))
    | _ =>
      simp only [collectorStep, hc] at h
      cases h
  | lockRemoval index =>
    simp only [collectorStep] at h
    split at h
    · split at h
      · cases h
      · cases h
        exact .inl ⟨trivial, moves_removal ‹_› (by decide)⟩
    · cases h
  | finishRemoval index =>
    simp only [collectorStep] at h
    split at h
    · cases h
      exact .inl ⟨trivial, moves_removal ‹_› (by decide)⟩
    · cases h

structure CollectorInv (s : CollectorState Content) : Prop where
  places : (s.dropped.map (·.sent) ++ s.pending).Perm s.sent
  numbers : s.sent.map (·.number) = List.range s.sent.length
  generation : s.generation = s.removals.length
  begun : ∀ u ∈ s.sent, u.begun ≤ s.removals.length
  settled : Settled s

theorem CollectorInv.start : CollectorInv (CollectorState.start : CollectorState Content) :=
  ⟨List.Perm.refl _, rfl, rfl, forall_mem_nil _, forall_mem_nil _, forall_mem_nil _⟩

section

variable (h : CollectorInv s)

include h

theorem CollectorInv.nodup_sent : s.sent.Nodup := by
  refine List.Nodup.of_map (·.number) ?_
  rw [h.numbers]
  exact nodup_range

theorem CollectorInv.not_pending_of_dropped (hu : u ∈ s.dropped.map (·.sent)) : u ∉ s.pending := by
  have hnodup := h.places.nodup_iff.mpr h.nodup_sent
  exact fun hpending => (nodup_append.mp hnodup).2.2 u hu u hpending rfl

theorem CollectorInv.sent_of_pending (hu : u ∈ s.pending) : u ∈ s.sent :=
  h.places.subset (mem_append_right _ hu)

theorem CollectorInv.sent_of_recorded (hu : u ∈ s.recorded) : u ∈ s.sent :=
  h.sent_of_pending (mem_append_left _ hu)

theorem CollectorInv.not_after_beginRemoval {removal : Removal × RemovalPhase} (hu : u ∈ s.sent) :
    u.begun ≠ (s.removals ++ [removal]).length := by
  rw [length_append]
  exact Nat.ne_of_lt (Nat.lt_succ_of_le (h.begun u hu))

theorem CollectorInv.moves (hm : Moves s s') : CollectorInv s' := by
  refine ⟨?_, ?_, ?_, ?_, hm.settled h.settled⟩
  · rw [hm.dropped, hm.pending, hm.sent]
    exact h.places
  · rw [hm.sent]
    exact h.numbers
  · rw [hm.generation, hm.removals]
    exact h.generation
  · rw [hm.sent, hm.removals]
    exact h.begun

theorem CollectorInv.send (update : SessionUpdate Content) : CollectorInv { s with
      channel := s.channel ++ [newUpdate s update]
      sent := s.sent ++ [newUpdate s update] } := by
  refine ⟨?_, ?_, h.generation, ?_, ?_, fun u hu _ => h.settled.stored u hu (h.sent_of_recorded hu)⟩
  · have hplaces := h.places.append_right [newUpdate s update]
    simpa only [pending, append_assoc] using hplaces
  · rw [map_append, h.numbers, length_append, length_singleton, range_succ]
    rfl
  · exact forall_mem_append.mpr ⟨h.begun, forall_mem_singleton.mpr le_rfl⟩
  · exact forall_mem_append.mpr ⟨h.settled.quiet, forall_mem_singleton.mpr And.left⟩

theorem CollectorInv.beginRemoval (removal : Removal) : CollectorInv { s with
      generation := s.generation + 1
      removals := s.removals ++ [(removal, .waiting)] } := by
  refine ⟨h.places, h.numbers, ?_, fun u hu => ?_,
    fun u hu hafter => absurd hafter.2 (h.not_after_beginRemoval hu),
    fun u _ hu hafter => absurd hafter.2 (h.not_after_beginRemoval hu)⟩
  · rw [length_append, ← h.generation]
    rfl
  · rw [length_append]
    exact Nat.le_succ_of_le (h.begun u hu)

end

theorem map_sent_dropBatch (generation : Nat) (batch : List (SentUpdate Content)) :
    (dropBatch s generation batch).dropped.map (·.sent) = s.dropped.map (·.sent) ++ batch := by
  rw [dropBatch, map_append, map_map]
  exact congrArg _ (map_id batch)

theorem CollectorInv.drop {generation : Nat} (h : CollectorInv s)
    (hc : s.collector = .comparing generation batch) :
    CollectorInv (dropBatch s generation batch) := by
  refine ⟨?_, h.numbers, h.generation, h.begun, h.settled.quiet, h.settled.stored⟩
  rw [map_sent_dropBatch]
  have hplaces := h.places
  have hpending : s.pending = s.recorded ++ (batch ++ s.channel) := by
    rw [pending, hc]
    rfl
  rw [hpending] at hplaces
  show (s.dropped.map DroppedUpdate.sent ++ batch ++ (s.recorded ++ ([] ++ s.channel))).Perm s.sent
  rw [append_assoc]
  have hswap : (batch ++ (s.recorded ++ s.channel)).Perm (s.recorded ++ (batch ++ s.channel)) :=
    perm_append_comm_assoc batch s.recorded s.channel
  exact (hswap.append_left _).trans hplaces

theorem CollectorInv.step (h : CollectorInv s) (hstep : collectorStep summaryMax s e = some s') :
    CollectorInv s' := by
  rcases collectorStep_cases hstep with ⟨-, hm⟩ | ⟨update, -, rfl⟩ | ⟨removal, -, rfl⟩ |
    ⟨generation, batch, -, hc, -, rfl⟩
  · exact h.moves hm
  · exact h.send update
  · exact h.beginRemoval removal
  · exact h.drop hc

/-! ## What is lost -/

/-- What is recorded is stored, so nothing is lost if the sessions are in one of the places. -/
theorem CollectorInv.kept (hi : CollectorInv s) (hu : u ∈ s.pending) (hafter : u.SentAfterLast s) :
    u ∈ s.channel ∨ u ∈ s.collector.inHand ∨ (u ∈ s.recorded ∧ s.Stored u.update.id) :=
  (mem_pending.mp hu).imp_right (Or.imp_right fun hrecorded =>
    ⟨hrecorded, hi.settled.stored u hrecorded (hi.sent_of_recorded hrecorded) hafter⟩)

theorem NothingLost.pending (h : NothingLost s) (hu : u ∈ s.sent) (hafter : u.SentAfterLast s) :
    u ∈ s.pending := mem_pending.mpr ((h.kept u hu hafter).imp_right (Or.imp_right And.left))

theorem NothingLost.moves (hi : CollectorInv s) (h : NothingLost s) (hm : Moves s s') :
    NothingLost s' := by
  constructor
  · intro u hu hafter
    refine (hi.moves hm).kept ?_ hafter
    rw [hm.pending]
    refine h.pending (hm.sent ▸ hu) ⟨hafter.1, ?_⟩
    rw [hafter.2, hm.removals]
  · rw [hm.dropped]
    exact h.spared

theorem NothingLost.send (h : NothingLost s) (update : SessionUpdate Content) : NothingLost { s with
      channel := s.channel ++ [newUpdate s update]
      sent := s.sent ++ [newUpdate s update] } := by
  refine ⟨fun u hu hafter => ?_, h.spared⟩
  rcases mem_append.mp hu with hold | hnew
  · exact (h.kept u hold hafter).imp_left (mem_append_left _)
  · exact .inl (mem_append_right _ hnew)

theorem NothingLost.beginRemoval (hi : CollectorInv s) (h : NothingLost s) (removal : Removal) :
    NothingLost { s with
      generation := s.generation + 1
      removals := s.removals ++ [(removal, .waiting)] } := by
  exact ⟨fun u hu hafter => absurd hafter.2 (hi.not_after_beginRemoval hu), h.spared⟩

theorem nothingLost_dropBatch_iff {generation : Nat} (hi : CollectorInv s) (h : NothingLost s)
    (hc : s.collector = .comparing generation batch) :
    NothingLost (dropBatch s generation batch) ↔
      ∀ u ∈ batch, ¬ u.SentAfterLast s ∧
        ∃ removal ∈ s.since generation, removal.covers u.update.id = true := by
  have hhand : s.collector.inHand = batch := congrArg inHand hc
  constructor
  · intro hlost u hu
    have hdropped : u ∈ (dropBatch s generation batch).dropped.map (·.sent) := by
      rw [map_sent_dropBatch]
      exact mem_append_right _ hu
    constructor
    · intro hafter
      have hsent : u ∈ s.sent := hi.sent_of_pending (mem_pending.mpr (.inr (.inl (hhand ▸ hu))))
      exact (hi.drop hc).not_pending_of_dropped hdropped (hlost.pending hsent hafter)
    · have hmem : (⟨u, s.since generation⟩ : DroppedUpdate Content) ∈
          (dropBatch s generation batch).dropped := mem_append_right _ (mem_map.mpr ⟨u, hu, rfl⟩)
      exact hlost.spared _ hmem
  · intro hbatch
    constructor
    · intro u hu hafter
      rcases h.kept u hu hafter with hchannel | hin | hrecorded
      · exact .inl hchannel
      · exact absurd hafter (hbatch u (hhand ▸ hin)).1
      · exact .inr (.inr hrecorded)
    · exact forall_mem_append.mpr ⟨h.spared, forall_mem_map.mpr fun u hu => (hbatch u hu).2⟩

theorem nothingLost_step_iff (hi : CollectorInv s) (h : NothingLost s)
    (hstep : collectorStep summaryMax s e = some s') : NothingLost s' ↔ LosesNothing s e := by
  rcases collectorStep_cases hstep with ⟨hg, hm⟩ | ⟨update, rfl, rfl⟩ | ⟨removal, rfl, rfl⟩ |
    ⟨generation, batch, rfl, hc, hne, rfl⟩
  · exact iff_of_true (NothingLost.moves hi h hm) hg
  · exact iff_of_true (h.send update) trivial
  · exact iff_of_true (NothingLost.beginRemoval hi h removal) trivial
  · rw [nothingLost_dropBatch_iff hi h hc]
    simp only [LosesNothing, hc]
    exact ⟨fun hall _ => hall, fun hall => hall hne⟩

theorem losesNothing_of_disabled (h : collectorStep summaryMax s e = none) : LosesNothing s e := by
  cases e with
  | compare =>
    cases hc : s.collector with
    | comparing generation batch =>
      simp only [collectorStep, hc] at h
      split at h <;> cases h
    | _ =>
      simp only [LosesNothing, hc]
  | _ => trivial

theorem NothingLost.start : NothingLost (CollectorState.start : CollectorState Content) :=
  ⟨forall_mem_nil _, forall_mem_nil _⟩

namespace Sample

def sendAfterDelete : List (CollectorEvent Unit) :=
  [.readGeneration, .beginRemoval (.delete [['x']]), .lockRemoval 0, .finishRemoval 0,
    .send (captured ['a'] 200), .receive, .batchFilled, .lockCollector, .compare]

def sentAfterDelete : SentUpdate Unit := ⟨0, captured ['a'] 200, 1, true⟩

def afterComparison : CollectorState Unit where
  store := .empty
  generation := 1
  lifecycleLocked := false
  channel := []
  collector := .loopStart
  removals := [(.delete [['x']], .returned)]
  sent := [sentAfterDelete]
  recorded := []
  evicted := []
  dropped := [⟨sentAfterDelete, [.delete [['x']]]⟩]

end Sample

end AiProxy.Sessions
