import AiProxy.Sessions.Proofs.EntryProofs

/-!
# The detail cache during reads and operations

While an operation runs, the sessions that it has not touched are as they should be, and the sessions
that it has touched will be when it ends (`ReadInv`).
-/

namespace AiProxy.Sessions

open KeyedList List

variable {Content Stored : Type} {conv : Conversion Content Stored} {summaryMax : Nat}
  {store store' : SessionStore Content} {call : Call Content} {calls : List (Call Content)} {id : Text}
  {writer : Writer Content} {s s' : ReadState Content Stored} {e : ReadEvent Content}
  {batch : List (SessionUpdate Content)}

variable {operation : Operation Content} {reader : Reader Stored}

/-- The operation has made its first call: what it has touched, and what it has yet to do. -/
def Later (store : SessionStore Content) (writer : Writer Content) : Prop :=
  match writer.operation with
  | .upsertSessionBatch batch =>
    (∀ update ∈ batch, update.detail.id ∈ writer.touched) ∧ writer.calls <:+ restOfBatch batch
  | .deleteSessions sessionIds =>
    (∀ id ∈ uniqueIds sessionIds, id ∈ writer.touched) ∧
      writer.calls <:+ [.removeSummaries (uniqueIds sessionIds), .removeDetails]
  | .deleteSessionsExcept _ => writer.calls <:+ [.removeDetails, .deleteRemovedRows]
  | .clearSessions => store.rows = [] ∧ writer.calls <:+ [.clearSummaries, .removeDetails]

structure WriterOk (store : SessionStore Content) (writer : Writer Content) : Prop where
  storable : writer.operation.Storable
  position : (writer.calls = writer.operation.calls ∧ writer.removed = .none) ∨ Later store writer
  removed : ∀ id ∈ writer.removed.all, id ∈ writer.touched

theorem writerOk_begin (h : operation.Storable) :
    WriterOk store ⟨operation, operation.calls, .none, []⟩ := ⟨h, .inl ⟨rfl, rfl⟩, forall_mem_nil _⟩

theorem restOfBatch_suffix (h : call :: calls <:+ restOfBatch batch) :
    (∃ update updates, update ∈ batch ∧ call = .upsertSummary update ∧
      call :: calls = restOfBatch (update :: updates)) ∨
    (∃ update ∈ batch, call = .refreshDetail update.detail) ∨
    call = .removeDetails ∨ call = .deleteRemovedRows := by
  induction batch with
  | nil =>
    rcases suffix_cons_iff.mp h with heq | hnil
    · exact .inr (.inr (.inr (List.cons.inj heq).1))
    · exact absurd (suffix_nil.mp hnil) (cons_ne_nil _ _)
  | cons update rest ih =>
    rcases suffix_cons_iff.mp h with heq | h
    · exact .inl ⟨update, rest, mem_cons_self, (List.cons.inj heq).1, heq⟩
    · rcases suffix_cons_iff.mp h with heq | h
      · exact .inr (.inl ⟨update, mem_cons_self, (List.cons.inj heq).1⟩)
      · rcases suffix_cons_iff.mp h with heq | h
        · exact .inr (.inr (.inl (List.cons.inj heq).1))
        · rcases ih h with ⟨u, us, hu, hcall, heq⟩ | ⟨u, hu, hcall⟩ | hother
          · exact .inl ⟨u, us, mem_cons_of_mem _ hu, hcall, heq⟩
          · exact .inr (.inl ⟨u, mem_cons_of_mem _ hu, hcall⟩)
          · exact .inr (.inr hother)

theorem suffix_pair {first second : Call Content} (h : call :: calls <:+ [first, second]) :
    call = first ∧ calls = [second] ∨ call = second ∧ calls = [] := by
  rcases suffix_cons_iff.mp h with heq | h
  · cases heq
    exact .inl ⟨rfl, rfl⟩
  · rcases suffix_cons_iff.mp h with heq | h
    · cases heq
      exact .inr ⟨rfl, rfl⟩
    · exact absurd (suffix_nil.mp h) (cons_ne_nil _ _)

theorem entryOk_delete {ids : List Text} (removed : Removed) (hid : id ∈ ids) :
    EntryOk conv (runCalls summaryMax store removed
      [.deleteRows ids, .removeSummaries ids, .removeDetails]) id :=
  EntryOk.of_absent (lookup_without_of_mem hid) (get_removeDetails_of_mem hid)

theorem entryOk_deleteExcept {keepId : Text} (removed : Removed)
    (hid : id ∈ (retainSummaries store.summaries keepId).2) :
    EntryOk conv (runCalls summaryMax store removed
      [.retainSummaries keepId, .removeDetails, .deleteRemovedRows]) id :=
  EntryOk.of_absent (lookup_without_of_mem (mem_append_right _ hid))
    (get_removeDetails_of_mem hid)

theorem entryOk_clear (removed : Removed) (h : EntryOk conv store id)
    (hid : id ∈ store.rows.map (·.id)) :
    EntryOk conv (runCalls summaryMax store removed [.clearRows, .clearSummaries, .removeDetails])
      id := by
  obtain ⟨update, hrow⟩ := exists_lookup hid
  have hfound := h.listed update hrow
  have hlisted : id ∈ store.summaries.map (·.id) := by
    by_contra hnot
    have hnone := lookup_eq_none_iff.mpr hnot
    rw [findSummary, hnone] at hfound
    cases hfound
  exact EntryOk.of_absent rfl (get_removeDetails_of_mem hlisted)

theorem entryOk_clearSummaries (removed : Removed) (h : EntryOk conv store id)
    (hrows : store.rows = []) :
    EntryOk conv (runCalls summaryMax store removed [.clearSummaries, .removeDetails]) id := by
  have hrow : store.row id = none := by
    rw [SessionStore.row, hrows]
    rfl
  have hget := h.get_eq_none hrow
  refine EntryOk.of_absent hrow ?_
  rcases get_removeDetails_cases (clearSummaries store.summaries).2 with hsame | hnone
  · exact hsame.trans hget
  · exact hnone

theorem entryOk_firstTouch (hw : WriterOk store writer) (hcalls : writer.calls = call :: calls)
    (h : EntryOk conv store id) (hnot : id ∉ writer.touched)
    (hid : id ∈ call.touches summaryMax store writer.removed) :
    EntryOk conv (runCalls summaryMax store writer.removed (call :: calls)) id := by
  obtain ⟨operation, _, removed, touched⟩ := writer
  obtain ⟨hstorable, hposition, hremoved⟩ := hw
  subst hcalls
  rcases hposition with ⟨hstart, rfl⟩ | hlater
  · cases operation with
    | upsertSessionBatch batch =>
      obtain ⟨rfl, rfl⟩ := List.cons.inj hstart
      exact entryOk_batch hstorable hid
    | deleteSessions sessionIds =>
      cases hstart
      exact entryOk_delete _ hid
    | deleteSessionsExcept keepId =>
      cases hstart
      exact entryOk_deleteExcept _ hid
    | clearSessions =>
      cases hstart
      exact entryOk_clear _ h hid
  · cases operation with
    | upsertSessionBatch batch =>
      obtain ⟨htouched, hsuffix⟩ := hlater
      rcases restOfBatch_suffix hsuffix with ⟨update, updates, hin, rfl, heq⟩ | ⟨update, hin, rfl⟩ |
        rfl | rfl
      · rw [heq]
        rcases mem_cons.mp hid with hself | hevicted
        · refine absurd (htouched update hin) ?_
          have hsame : update.detail.id = update.detail.summary.id := hstorable update hin
          rw [hsame, ← hself]
          exact hnot
        · exact entryOk_evicted hevicted
      · rw [mem_singleton.mp hid] at hnot
        exact absurd (htouched update hin) hnot
      · exact absurd hid not_mem_nil
      · exact absurd (hremoved id hid) hnot
    | deleteSessions sessionIds =>
      rcases suffix_pair hlater.2 with ⟨rfl, -⟩ | ⟨rfl, -⟩
      · exact absurd (hlater.1 id hid) hnot
      · exact absurd hid not_mem_nil
    | deleteSessionsExcept keepId =>
      rcases suffix_pair hlater with ⟨rfl, -⟩ | ⟨rfl, -⟩
      · exact absurd hid not_mem_nil
      · exact absurd (hremoved id hid) hnot
    | clearSessions =>
      rcases suffix_pair hlater.2 with ⟨rfl, rfl⟩ | ⟨rfl, -⟩
      · exact entryOk_clearSummaries _ h hlater.1
      · exact absurd hid not_mem_nil

theorem WriterOk.afterCall (hw : WriterOk store writer) (hcalls : writer.calls = call :: calls) :
    WriterOk (call.run summaryMax store writer.removed).1
      ⟨writer.operation, calls, (call.run summaryMax store writer.removed).2,
        writer.touched ++ call.touches summaryMax store writer.removed⟩ := by
  obtain ⟨operation, _, removed, touched⟩ := writer
  obtain ⟨hstorable, hposition, hremoved⟩ := hw
  subst hcalls
  refine ⟨hstorable, .inr ?_, fun id hid => ?_⟩
  · have htail : calls <:+ call :: calls := suffix_cons call calls
    rcases hposition with ⟨hstart, -⟩ | hlater
    · cases operation with
      | upsertSessionBatch batch =>
        obtain ⟨rfl, rfl⟩ := List.cons.inj hstart
        refine ⟨fun update hupdate => mem_append_right _ ?_, suffix_refl _⟩
        exact mem_map_of_mem (mem_map_of_mem hupdate)
      | deleteSessions sessionIds =>
        cases hstart
        exact ⟨fun id hid => mem_append_right _ hid, suffix_refl _⟩
      | deleteSessionsExcept keepId =>
        cases hstart
        exact suffix_refl _
      | clearSessions =>
        cases hstart
        exact ⟨rfl, suffix_refl _⟩
    · cases operation with
      | upsertSessionBatch batch | deleteSessions sessionIds =>
        exact ⟨fun x hx => mem_append_left _ (hlater.1 x hx), htail.trans hlater.2⟩
      | deleteSessionsExcept keepId => exact htail.trans hlater
      | clearSessions =>
        refine ⟨?_, htail.trans hlater.2⟩
        rcases suffix_pair hlater.2 with ⟨rfl, -⟩ | ⟨rfl, -⟩ <;> exact hlater.1
  · rcases mem_removed_run hid with hold | hnew
    · exact mem_append_left _ (hremoved id hold)
    · exact mem_append_right _ hnew

/-- An undisturbed read of a session that is not touched has loaded what is there. -/
def ReaderOk (conv : Conversion Content Stored) (s : ReadState Content Stored)
    (reader : Reader Stored) :
    Prop :=
  reader.id ∉ s.touched ∧
  match reader.phase with
  | .missed => True
  | .loaded row | .unlisted row =>
    ∃ update, s.store.row reader.id = some update ∧ row = conv.toRow update
  | .found row summary =>
    ∃ update, s.store.row reader.id = some update ∧ row = conv.toRow update ∧ summary = update.summary

theorem ReaderOk.of_row (h : ReaderOk conv s reader) (htouched : reader.id ∉ s'.touched)
    (hrow : s'.store.row reader.id = s.store.row reader.id) :
    ReaderOk conv s' reader := by
  refine ⟨htouched, ?_⟩
  have hphase := h.2
  rw [← hrow] at hphase
  exact hphase

structure ReadInv (summaryMax : Nat) (conv : Conversion Content Stored) (s : ReadState Content Stored) :
    Prop where
  writer : ∀ writer, s.writer = some writer → WriterOk s.store writer
  untouched : ∀ id, id ∉ s.touched → EntryOk conv s.store id
  touched : ∀ writer, s.writer = some writer → ∀ id ∈ writer.touched,
    EntryOk conv (runCalls summaryMax s.store writer.removed writer.calls) id
  readers : ∀ reader ∈ s.readers, reader.undisturbed = true → ReaderOk conv s reader

theorem ReadInv.start : ReadInv summaryMax conv (ReadState.start : ReadState Content Stored) := by
  constructor
  · intro writer h
    cases h
  · intro id _
    exact EntryOk.of_absent rfl rfl
  · intro writer h
    cases h
  · intro reader h
    cases h

theorem disturb_undisturbed {ids : List Text} (h : (reader.disturb ids).undisturbed = true) :
    reader.disturb ids = reader ∧ reader.undisturbed = true ∧ reader.id ∉ ids := by
  unfold Reader.disturb at h ⊢
  split at h
  · cases h
  · next hnot =>
    rw [if_neg hnot]
    exact ⟨rfl, h, hnot⟩

section

variable (h : ReadInv summaryMax conv s)

include h

theorem ReadInv.setReaders {readers : List (Reader Stored)}
    (hreaders : ∀ reader ∈ readers, reader.undisturbed = true → ReaderOk conv s reader) :
    ReadInv summaryMax conv { s with readers } := ⟨h.writer, h.untouched, h.touched, hreaders⟩

theorem ReadInv.eraseReader (reader : Nat) :
    ReadInv summaryMax conv { s with readers := s.readers.eraseIdx reader } :=
  h.setReaders fun r hr => h.readers r (mem_of_mem_eraseIdx hr)

theorem ReadInv.setReader {index : Nat}
    (hreader : reader.undisturbed = true → ReaderOk conv s reader) :
    ReadInv summaryMax conv { s with readers := s.readers.set index reader } := by
  refine h.setReaders fun r hr hundisturbed => ?_
  rcases mem_or_eq_of_mem_set hr with hold | rfl
  · exact h.readers r hold hundisturbed
  · exact hreader hundisturbed

/-- The cache changes, so that what it holds of each session is as before or gone, or is right for a session
that is not touched. -/
theorem ReadInv.setDetails {details : DetailState Content}
    (hdetails : ∀ id, Weaker s.store { s.store with details } id ∨
      id ∉ s.touched ∧ EntryOk conv { s.store with details } id) :
    ReadInv summaryMax conv { s with store := { s.store with details } } := by
  have hwriter : ∀ writer, s.writer = some writer → ∀ id ∈ writer.touched, id ∈ s.touched := by
    intro writer hw id hid
    rw [ReadState.touched, hw]
    exact hid
  refine ⟨fun writer hw => ?_, fun id hid => ?_, fun writer hw id hid => ?_, fun r hr hu => ?_⟩
  · obtain ⟨hstorable, hposition, hremoved⟩ := h.writer writer hw
    exact ⟨hstorable, hposition, hremoved⟩
  · rcases hdetails id with hweaker | ⟨-, hok⟩
    · exact hweaker.sameEntry.ok (h.untouched id hid)
    · exact hok
  · rcases hdetails id with hweaker | ⟨hnot, -⟩
    · exact (hweaker.runCalls _ _).sameEntry.ok (h.touched writer hw id hid)
    · exact absurd (hwriter writer hw id hid) hnot
  · exact (h.readers r hr hu).of_row (h.readers r hr hu).1 rfl

theorem ReadInv.begin (hnone : s.writer = none) (hstorable : operation.Storable) :
    ReadInv summaryMax conv { s with writer := some ⟨operation, operation.calls, .none, []⟩ } := by
  have htouched : s.touched = [] := by rw [ReadState.touched, hnone]
  refine ⟨fun writer hw => ?_, fun id _ => ?_, fun writer hw id hid => ?_, fun r hr hu => ?_⟩
  · cases hw
    exact writerOk_begin hstorable
  · exact h.untouched id (htouched ▸ not_mem_nil)
  · cases hw
    exact absurd hid not_mem_nil
  · exact (h.readers r hr hu).of_row not_mem_nil rfl

theorem ReadInv.afterCall (hw : s.writer = some writer) (hcalls : writer.calls = call :: calls) :
    ReadInv summaryMax conv (callStep summaryMax s writer call calls) := by
  have hok := h.writer writer hw
  have htouched : s.touched = writer.touched := by rw [ReadState.touched, hw]
  -- what the operation leaves of the sessions that it has touched after this call
  have hend : ∀ id, id ∈ writer.touched ++ call.touches summaryMax s.store writer.removed →
      EntryOk conv (runCalls summaryMax s.store writer.removed (call :: calls)) id := by
    intro id hid
    by_cases hbefore : id ∈ writer.touched
    · exact hcalls ▸ h.touched writer hw id hbefore
    · have hnow := (mem_append.mp hid).resolve_left hbefore
      exact entryOk_firstTouch hok hcalls (h.untouched id (htouched ▸ hbefore)) hbefore hnow
  have hsame : ∀ id, id ∉ call.touches summaryMax s.store writer.removed →
      SameEntry s.store (call.run summaryMax s.store writer.removed).1 id :=
    fun id hid => sameEntry_of_not_touched hid
  have hreaders : ∀ reader ∈ s.readers.map (Reader.disturb
        (call.touches summaryMax s.store writer.removed)), reader.undisturbed = true →
      ReaderOk conv s reader ∧ reader.id ∉ call.touches summaryMax s.store writer.removed := by
    intro reader hreader hundisturbed
    obtain ⟨r, hr, rfl⟩ := mem_map.mp hreader
    obtain ⟨heq, hu, hnot⟩ := disturb_undisturbed hundisturbed
    rw [heq]
    exact ⟨h.readers r hr hu, hnot⟩
  cases hrest : calls with
  | nil =>
    subst hrest
    refine ⟨fun w hw' => ?_, fun id _ => ?_, fun w hw' => ?_, fun r hr hu => ?_⟩
    · cases hw'
    · by_cases hid : id ∈ writer.touched ++ call.touches summaryMax s.store writer.removed
      · exact hend id hid
      · rw [mem_append, not_or] at hid
        exact (hsame id hid.2).ok (h.untouched id (htouched ▸ hid.1))
    · cases hw'
    · obtain ⟨hreader, hnot⟩ := hreaders r hr hu
      exact hreader.of_row not_mem_nil (hsame r.id hnot).row
  | cons next rest =>
    rw [← hrest]
    have hwriter : (callStep summaryMax s writer call calls).writer =
        some ⟨writer.operation, calls, (call.run summaryMax s.store writer.removed).2,
          writer.touched ++ call.touches summaryMax s.store writer.removed⟩ := by
      simp only [callStep, hrest]
      rfl
    have htouched' : (callStep summaryMax s writer call calls).touched =
        writer.touched ++ call.touches summaryMax s.store writer.removed := by
      rw [ReadState.touched, hwriter]
    refine ⟨fun w hsome => ?_, fun id hid => ?_, fun w hsome id hid => ?_, fun r hr hu => ?_⟩
    · cases hwriter.symm.trans hsome
      exact hok.afterCall hcalls
    · rw [htouched', mem_append, not_or] at hid
      exact (hsame id hid.2).ok (h.untouched id (htouched ▸ hid.1))
    · cases hwriter.symm.trans hsome
      exact hend id hid
    · obtain ⟨hreader, hnot⟩ := hreaders r hr hu
      refine hreader.of_row ?_ (hsame r.id hnot).row
      rw [htouched', mem_append, not_or]
      exact ⟨htouched ▸ hreader.1, hnot⟩

theorem ReadInv.insert {row : Stored} {summary : ProxySessionSummary} (hok : ReaderOk conv s reader)
    (hphase : reader.phase = .found row summary) :
    ReadInv summaryMax conv { s with
      store := { s.store with
        details := (s.store.details.insertDetail reader.id (conv.ofRow row summary)).2 } } := by
  obtain ⟨hnot, hfound⟩ := hok
  rw [hphase] at hfound
  obtain ⟨update, hrow, rfl, rfl⟩ := hfound
  refine h.setDetails fun id => ?_
  by_cases hid : id = reader.id
  · subst hid
    refine .inr ⟨hnot, (h.untouched _ hnot).listed, fun detail hget => ⟨update, hrow, ?_⟩⟩
    rcases get_insertDetail_self with hsome | hnone
    · exact .inr (Option.some.inj (hget.symm.trans hsome))
    · exact absurd (hget.symm.trans hnone) (by simp)
  · exact .inl ⟨rfl, rfl, get_insertDetail_of_ne hid⟩

theorem ReadInv.step (hguard : InsertsUndisturbed s e)
    (hstep : readStep summaryMax conv s e = some s') : ReadInv summaryMax conv s' := by
  cases e with
  | beginOperation operation =>
    simp only [readStep] at hstep
    split at hstep
    · next hcond =>
      cases hstep
      exact h.begin (Option.isNone_iff_eq_none.mp hcond.1) hcond.2
    · cases hstep
  | call =>
    simp only [readStep] at hstep
    split at hstep
    · next writer hw =>
      split at hstep
      · next call calls hcalls =>
        cases hstep
        exact h.afterCall hw hcalls
      · cases hstep
    · cases hstep
  | lookUp id =>
    simp only [readStep] at hstep
    split at hstep
    · next detail details hget =>
      cases hstep
      refine h.setDetails fun other => .inl ⟨rfl, rfl, .inl ?_⟩
      have hsame : (s.store.details.tryGetDetail id).2.get other = s.store.details.get other :=
        get_tryGetDetail
      rw [hget] at hsame
      exact hsame
    · cases hstep
      refine h.setReaders fun r hr hu => ?_
      rcases mem_append.mp hr with hold | hnew
      · exact h.readers r hold hu
      · rw [mem_singleton.mp hnew] at hu
        cases hu
  | loadRow reader =>
    simp only [readStep] at hstep
    split at hstep
    · next id undisturbed hreader =>
      split at hstep
      · next row hrow =>
        cases hstep
        obtain ⟨update, hlookup, rfl⟩ := Option.map_eq_some_iff.mp hrow
        exact h.setReader fun hu => ⟨by simpa using hu, update, hlookup, rfl⟩
      · cases hstep
        exact h.eraseReader reader
    · cases hstep
  | findSummary reader =>
    simp only [readStep] at hstep
    split at hstep
    · next id row undisturbed hreader =>
      have hmem := mem_of_getElem? hreader
      split at hstep
      · next summary hfound =>
        cases hstep
        refine h.setReader fun hu => ?_
        obtain ⟨hnot, update, hrow, rfl⟩ := h.readers _ hmem hu
        have hlisted := (h.untouched id hnot).listed update hrow
        exact ⟨hnot, update, hrow, rfl, Option.some.inj (hfound.symm.trans hlisted)⟩
      · cases hstep
        refine h.setReader fun hu => ?_
        obtain ⟨hnot, hloaded⟩ := h.readers _ hmem hu
        exact ⟨hnot, hloaded⟩
    · cases hstep
  | loadSummary reader =>
    simp only [readStep] at hstep
    split at hstep
    · next id row undisturbed hreader =>
      have hmem := mem_of_getElem? hreader
      split at hstep
      · next summary hfound =>
        cases hstep
        refine h.setReader fun hu => ?_
        obtain ⟨hnot, update, hrow, rfl⟩ := h.readers _ hmem hu
        obtain ⟨stored, hlookup, rfl⟩ := Option.map_eq_some_iff.mp hfound
        cases hlookup.symm.trans hrow
        exact ⟨hnot, update, hrow, rfl, rfl⟩
      · cases hstep
        exact h.eraseReader reader
    · cases hstep
  | insert reader =>
    simp only [readStep] at hstep
    split at hstep
    · next id row summary undisturbed hreader =>
      cases hstep
      have hmem := mem_of_getElem? hreader
      have hundisturbed : s.readers[reader]?.all (·.undisturbed) = true := hguard
      rw [hreader] at hundisturbed
      have hok := h.readers _ hmem hundisturbed
      exact (h.insert hok rfl).eraseReader reader
    · cases hstep

end

/-! ## The cache is not stale -/

theorem notStale_of_entryOk (h : ∀ id, EntryOk conv store id) : NotStale conv store := by
  refine ⟨fun id => (h id).cached, fun id update hrow => ?_⟩
  have hlisted := (h id).listed update hrow
  cases hget : store.details.get id with
  | some detail =>
    obtain ⟨stored, hstored, hdetail⟩ := (h id).cached detail hget
    cases hrow.symm.trans hstored
    refine ⟨detail, ?_, hdetail⟩
    simp only [readSessionDetail, hget]
  | none =>
    refine ⟨conv.ofRow (conv.toRow update) update.summary, ?_, .inr rfl⟩
    have hload : loadRow conv store id = some (conv.toRow update) := congrArg (Option.map _) hrow
    simp only [readSessionDetail, hget, hload, hlisted]
    rfl

/-- For every interleaving of reads with updates, deletes, evictions and clears in which each read that fills
the cache is undisturbed: when nothing is in progress, every cached detail is the detail of the last update
of a session that exists, and a read returns it. -/
theorem detail_cache_not_stale (summaryMax : Nat) (conv : Conversion Content Stored)
    (events : List (ReadEvent Content)) (s : ReadState Content Stored)
    (hrun : Run.exec (readStep summaryMax conv) .start events = some s)
    (hreads : Run.Along (readStep summaryMax conv) InsertsUndisturbed .start events) (hidle : s.Idle) :
    NotStale conv s.store := by
  have hinv : ReadInv summaryMax conv s :=
    Run.exec_invariant_along (P := ReadInv summaryMax conv)
      (fun _ _ _ h hguard hstep => h.step hguard hstep) hrun hreads ReadInv.start
  refine notStale_of_entryOk fun id => hinv.untouched id ?_
  rw [ReadState.touched, hidle.1]
  exact not_mem_nil

namespace Sample

def conversion : Conversion Unit Unit where
  toRow _ := ()
  ofRow _ summary := ⟨summary.id, summary, ()⟩

def updated (statusCode : Nat) : List (ReadEvent Unit) :=
  .beginOperation (.upsertSessionBatch [captured ['a'] statusCode]) :: List.replicate 5 .call

def readBegins : List (ReadEvent Unit) := [.lookUp ['a'], .loadRow 0, .findSummary 0]

def readAlone : List (ReadEvent Unit) := updated 0 ++ readBegins ++ [.insert 0]

def readAround : List (ReadEvent Unit) := updated 0 ++ readBegins ++ updated 200 ++ [.insert 0]

def cachedAlone : ReadState Unit Unit where
  store := ⟨[session ['a'] 0], [(session ['a'] 0).summary], ⟨[(['a'], session ['a'] 0)], [['a']]⟩⟩
  writer := none
  readers := []

def cachedStale : ReadState Unit Unit where
  store := ⟨[session ['a'] 200], [(session ['a'] 200).summary], ⟨[(['a'], session ['a'] 0)], [['a']]⟩⟩
  writer := none
  readers := []

end Sample

theorem detail_cache_not_stale_alone : NotStale Sample.conversion Sample.cachedAlone.store :=
  detail_cache_not_stale sessionSummaryMax Sample.conversion Sample.readAlone Sample.cachedAlone
    (by decide)
    (by decide) ⟨rfl, rfl⟩

/-- A read that loads the row before an update and fills the cache after it leaves the session in flight in
the cache. -/
theorem detail_cached_stale :
    ∃ s, Run.exec (readStep sessionSummaryMax Sample.conversion) .start Sample.readAround = some s ∧
      s.Idle ∧ ¬ NotStale Sample.conversion s.store := by
  refine ⟨Sample.cachedStale, by decide, ⟨rfl, rfl⟩, fun h => ?_⟩
  obtain ⟨update, hrow, hdetail⟩ := h.cached ['a'] (Sample.session ['a'] 0) (by decide)
  have hlast : update = Sample.session ['a'] 200 :=
    Option.some.inj (hrow.symm.trans (by decide))
  subst hlast
  rcases hdetail with hsame | hread
  · exact absurd hsame (by decide)
  · exact absurd hread (by decide)

end AiProxy.Sessions
