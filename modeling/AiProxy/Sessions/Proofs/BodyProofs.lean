import AiProxy.Sessions.Bodies

/-!
# Rows keep their files

The files of a row are in the directory of its session, and each was written (`BodyInv`).
-/

namespace AiProxy.Sessions

open KeyedList List

variable {s s' s'' : BodyState} {path : BodyPath} {row : BodyRow} {ids : List Text}
  {bodies : Text → RemoveOutcome} {db : DbOutcome} {e : BodyEvent}

/-- The files of the row are those of its session. -/
def OwnFiles (row : BodyRow) : Prop := ∀ path ∈ row.files, path.sessionId = row.id

/-- Every file of a row was written, and is there or was removed. -/
structure BodyInv (s : BodyState) : Prop where
  own : ∀ row ∈ s.rows, OwnFiles row
  written : ∀ row ∈ s.rows, ∀ path ∈ row.files, path ∈ s.files ∨ path ∈ s.removed

theorem BodyInv.start : BodyInv .start := ⟨forall_mem_nil _, forall_mem_nil _⟩

theorem bodiesKept_start : BodiesKept .start := forall_mem_nil _

theorem BodyInv.mem_files (hi : BodyInv s) (h : BodiesKept s) (hrow : row ∈ s.rows)
    (hpath : path ∈ row.files) : path ∈ s.files :=
  (hi.written row hrow path hpath).resolve_right (h row hrow path hpath)

/-- Rows were deleted, and of the files those that `taken` describes were removed. -/
structure Removes (taken : BodyPath → Bool) (s s' : BodyState) : Prop where
  rows : ∀ row ∈ s'.rows, row ∈ s.rows
  files : ∀ path, path ∈ s'.files ↔ path ∈ s.files ∧ taken path = false
  removed : ∀ path, path ∈ s'.removed ↔ path ∈ s.removed ∨ path ∈ s.files ∧ taken path = true

section Removal

variable {taken taken' : BodyPath → Bool}

theorem Removes.refl (s : BodyState) : Removes (fun _ => false) s s :=
  ⟨fun _ h => h, fun path => by simp, fun path => by simp⟩

theorem Removes.trans (h : Removes taken s s') (h' : Removes taken' s' s'') :
    Removes (fun path => taken path || taken' path) s s'' := by
  refine ⟨fun row hrow => h.rows row (h'.rows row hrow), fun path => ?_, fun path => ?_⟩
  · rw [h'.files, h.files, Bool.or_eq_false_iff, and_assoc]
  · rw [h'.removed, h.removed, h.files]
    cases taken path <;> simp

theorem removes_take (s : BodyState) (taken : BodyPath → Bool) : Removes taken s (s.take taken) :=
  ⟨fun _ h => h, fun path => by simp [BodyState.take], fun path => by simp [BodyState.take]⟩

def removesBodies (bodies : Text → RemoveOutcome) (ids : List Text) (path : BodyPath) : Bool :=
  ids.any fun id => removesBody id (bodies id) path

theorem removes_removeBodies (s : BodyState) (bodies : Text → RemoveOutcome) (ids : List Text) :
    Removes (removesBodies bodies ids) s (s.removeBodies bodies ids) := by
  induction ids generalizing s with
  | nil => exact Removes.refl s
  | cons id ids ih => exact (removes_take s _).trans (ih _)

theorem removeBodies_rows (s : BodyState) (bodies : Text → RemoveOutcome) (ids : List Text) :
    (s.removeBodies bodies ids).rows = s.rows := by
  induction ids generalizing s with
  | nil => rfl
  | cons id ids ih => exact ih _

theorem removesBodies_of_own (h : path.sessionId = row.id) : removesBodies bodies ids path = false ↔
      (row.id ∈ ids → removesBody row.id (bodies row.id) path = false) := by
  rw [removesBodies, any_eq_false]
  constructor
  · intro hall hid
    exact eq_false_of_ne_true (hall row.id hid)
  · intro hrow id hid hremoves
    have hdir : path.sessionId = id := by
      simp only [removesBody, Bool.and_eq_true, decide_eq_true_eq] at hremoves
      exact hremoves.1.2
    have heq : row.id = id := h.symm.trans hdir
    subst heq
    rw [hrow hid] at hremoves
    cases hremoves

theorem Removes.inv (h : Removes taken s s') (hi : BodyInv s) : BodyInv s' := by
  refine ⟨fun row hrow => hi.own row (h.rows row hrow), fun row hrow path hpath => ?_⟩
  rw [h.files, h.removed]
  rcases hi.written row (h.rows row hrow) path hpath with hfile | hremoved
  · cases ht : taken path with
    | false => exact .inl ⟨hfile, rfl⟩
    | true => exact .inr (.inr ⟨hfile, rfl⟩)
  · exact .inr (.inl hremoved)

theorem Removes.bodiesKept_iff (h : Removes taken s s') (hi : BodyInv s) (hkept : BodiesKept s) :
    BodiesKept s' ↔ ∀ row ∈ s'.rows, ∀ path ∈ row.files, taken path = false := by
  constructor
  · intro hkept' row hrow path hpath
    cases ht : taken path with
    | false => rfl
    | true =>
      have hfile := hi.mem_files hkept (h.rows row hrow) hpath
      exact absurd ((h.removed path).mpr (.inr ⟨hfile, ht⟩)) (hkept' row hrow path hpath)
  · intro hnone row hrow path hpath hremoved
    rcases (h.removed path).mp hremoved with hold | ⟨-, ht⟩
    · exact hkept row (h.rows row hrow) path hpath hold
    · rw [hnone row hrow path hpath] at ht
      cases ht

end Removal

/-! ## Persisting sessions -/

/-- Files were written: none that was there is lost, and one that was removed is removed or written. -/
structure Spills (s s' : BodyState) : Prop where
  rows : s'.rows = s.rows
  files : ∀ path ∈ s.files, path ∈ s'.files
  removed : ∀ path ∈ s'.removed, path ∈ s.removed
  written : ∀ path ∈ s.removed, path ∈ s'.files ∨ path ∈ s'.removed

theorem Spills.refl (s : BodyState) : Spills s s :=
  ⟨rfl, fun _ h => h, fun _ h => h, fun _ h => .inr h⟩

theorem Spills.trans (h : Spills s s') (h' : Spills s' s'') : Spills s s'' := by
  refine ⟨h'.rows.trans h.rows, fun path hp => h'.files path (h.files path hp),
    fun path hp => h.removed path (h'.removed path hp), fun path hp => ?_⟩
  rcases h.written path hp with hfile | hremoved
  · exact .inl (h'.files path hfile)
  · exact h'.written path hremoved

theorem spills_write (s : BodyState) (path : BodyPath) : Spills s (s.write path) := by
  refine ⟨rfl, fun _ h => mem_cons_of_mem _ h, fun _ h => mem_of_mem_filter h, fun other h => ?_⟩
  by_cases he : other = path
  · exact .inl (he ▸ mem_cons_self)
  · exact .inr (mem_filter.mpr ⟨h, by simpa using he⟩)

def Fresh (s : BodyState) (path : BodyPath) : Prop := path ∈ s.files ∧ path ∉ s.removed

theorem Fresh.spills (hf : Fresh s path) (h : Spills s s') : Fresh s' path :=
  ⟨h.files path hf.1, fun hremoved => hf.2 (h.removed path hremoved)⟩

theorem fresh_write (s : BodyState) (path : BodyPath) : Fresh (s.write path) path :=
  ⟨mem_cons_self, fun h => by simpa using (mem_filter.mp h).2⟩

theorem spillBody_spec (s : BodyState) (path : BodyPath) (outcome : WriteOutcome) (size : Option Nat) :
    Spills s (spillBody s path outcome size).1 ∧
      ∀ p, (spillBody s path outcome size).2.1.bind StoredBody.path? = some p →
        p = path ∧ Fresh (spillBody s path outcome size).1 p := by
  unfold spillBody
  split
  · exact ⟨Spills.refl s, fun p hp => by cases hp⟩
  · split
    · exact ⟨Spills.refl s, fun p hp => by cases hp⟩
    · split
      · exact ⟨Spills.refl s, fun p hp => by cases hp⟩
      · cases outcome with
        | failed => exact ⟨Spills.refl s, fun p hp => by cases hp⟩
        | written resolved =>
          refine ⟨spills_write s path, fun p hp => ?_⟩
          cases resolved with
          | false => cases hp
          | true =>
            cases hp
            exact ⟨rfl, fresh_write s path⟩

/-- The row that a spilled session gets: its files are its own, and there. -/
def FreshRow (s : BodyState) (row : BodyRow) : Prop :=
  ∀ path ∈ row.files, path.sessionId = row.id ∧ Fresh s path

theorem mem_files_iff {row : BodyRow} :
    path ∈ row.files ↔ row.requestBody.bind StoredBody.path? = some path ∨
      row.responseBody.bind StoredBody.path? = some path := by
  simp [BodyRow.files]

theorem FreshRow.spills (hf : FreshRow s row) (h : Spills s s') : FreshRow s' row :=
  fun path hpath => ⟨(hf path hpath).1, (hf path hpath).2.spills h⟩

theorem spillSession_spec (s : BodyState) (session : CapturedSession) (outcome : PersistOutcome) :
    Spills s (spillSession s session outcome).1 ∧
      FreshRow (spillSession s session outcome).1 (spillSession s session outcome).2 := by
  obtain ⟨hspill₁, hbody₁⟩ :=
    spillBody_spec s ⟨session.id, .request⟩ outcome.requestWrite session.requestBody
  obtain ⟨hspill₂, hbody₂⟩ := spillBody_spec
    (spillBody s ⟨session.id, .request⟩ outcome.requestWrite session.requestBody).1
    ⟨session.id, .response⟩ outcome.responseWrite session.responseBody
  unfold spillSession
  simp only []
  split
  · refine ⟨hspill₁.trans hspill₂, fun path hpath => ?_⟩
    rcases mem_files_iff.mp hpath with hrequest | hresponse
    · obtain ⟨rfl, hfresh⟩ := hbody₁ path hrequest
      exact ⟨rfl, hfresh.spills hspill₂⟩
    · obtain ⟨rfl, hfresh⟩ := hbody₂ path hresponse
      exact ⟨rfl, hfresh⟩
  · refine ⟨hspill₁, fun path hpath => ?_⟩
    rcases mem_files_iff.mp hpath with hrequest | hresponse
    · obtain ⟨rfl, hfresh⟩ := hbody₁ path hrequest
      exact ⟨rfl, hfresh⟩
    · cases hr : session.responseBody <;> rw [hr] at hresponse <;> cases hresponse

theorem spillBatch_spec (s : BodyState) (sessions : List (CapturedSession × PersistOutcome)) :
    Spills s (spillBatch s sessions).1 ∧
      ∀ new ∈ (spillBatch s sessions).2, FreshRow (spillBatch s sessions).1 new.1 := by
  induction sessions generalizing s with
  | nil => exact ⟨Spills.refl s, forall_mem_nil _⟩
  | cons first rest ih =>
    obtain ⟨hspill, hrow⟩ := spillSession_spec s first.1 first.2
    obtain ⟨hrest, hrows⟩ := ih (spillSession s first.1 first.2).1
    exact ⟨hspill.trans hrest, forall_mem_cons.mpr ⟨hrow.spills hrest, hrows⟩⟩

theorem Spills.inv (h : Spills s s') (hi : BodyInv s) : BodyInv s' := by
  refine ⟨fun row hrow => hi.own row (h.rows ▸ hrow), fun row hrow path hpath => ?_⟩
  rcases hi.written row (h.rows ▸ hrow) path hpath with hfile | hremoved
  · exact .inl (h.files path hfile)
  · exact h.written path hremoved

theorem Spills.bodiesKept (h : Spills s s') (hkept : BodiesKept s) : BodiesKept s' :=
  fun row hrow path hpath hremoved => hkept row (h.rows ▸ hrow) path hpath (h.removed path hremoved)

theorem persist_spec (hi : BodyInv s) (hkept : BodiesKept s)
    (sessions : List (CapturedSession × PersistOutcome)) (lock : DbOutcome) :
    BodyInv (persistSessionBatch s sessions lock) ∧
      BodiesKept (persistSessionBatch s sessions lock) := by
  obtain ⟨hspill, hfresh⟩ := spillBatch_spec s sessions
  have hinv := hspill.inv hi
  have hspilled := hspill.bodiesKept hkept
  unfold persistSessionBatch
  simp only []
  split
  · have hrows : ∀ row ∈ upsertRows (spillBatch s sessions).1.rows (spillBatch s sessions).2,
        FreshRow (spillBatch s sessions).1 row ∨ row ∈ (spillBatch s sessions).1.rows := by
      intro row hrow
      rcases mem_of_mem_upsertAll hrow with hnew | hold
      · obtain ⟨new, hin, rfl⟩ := mem_map.mp hnew
        exact .inl (hfresh new (mem_of_mem_filter hin))
      · exact .inr hold
    refine ⟨⟨fun row hrow => ?_, fun row hrow path hpath => ?_⟩, fun row hrow path hpath => ?_⟩
    · rcases hrows row hrow with hnew | hold
      · exact fun path hpath => (hnew path hpath).1
      · exact hinv.own row hold
    · rcases hrows row hrow with hnew | hold
      · exact .inl (hnew path hpath).2.1
      · exact hinv.written row hold path hpath
    · rcases hrows row hrow with hnew | hold
      · exact (hnew path hpath).2.2
      · exact hspilled row hold path hpath
  · exact ⟨hinv, hspilled⟩

/-! ## The operations -/

theorem kept_of_no_rows (h : s.rows = []) : BodyInv s ∧ BodiesKept s := by
  refine ⟨⟨?_, ?_⟩, ?_⟩ <;> intro row hrow <;> rw [h] at hrow <;> cases hrow

section

variable (hi : BodyInv s) (hkept : BodiesKept s)

include hi hkept

/-- Rows are deleted, and then no bodies but those of deleted rows are removed. -/
theorem deletedRows_spec {taken : List Text} (htaken : ∀ id ∈ taken, id ∈ ids) :
    BodyInv ({ s with rows := KeyedList.without (·.id) ids s.rows }.removeBodies bodies taken) ∧
      BodiesKept
        ({ s with rows := KeyedList.without (·.id) ids s.rows }.removeBodies bodies taken) := by
  have hdrop : Removes (fun _ => false) s { s with rows := KeyedList.without (·.id) ids s.rows } :=
    ⟨fun row hrow => (mem_without.mp hrow).1, (Removes.refl s).files, (Removes.refl s).removed⟩
  have hinv := hdrop.inv hi
  have hdropped := (hdrop.bodiesKept_iff hi hkept).mpr fun _ _ _ _ => rfl
  have hall := removes_removeBodies { s with rows := KeyedList.without (·.id) ids s.rows } bodies taken
  refine ⟨hall.inv hinv, (hall.bodiesKept_iff hinv hdropped).mpr fun row hrow path hpath => ?_⟩
  rw [removeBodies_rows] at hrow
  refine (removesBodies_of_own (hinv.own row hrow path hpath)).mpr fun hid => ?_
  exact absurd (htaken row.id hid) (mem_without.mp hrow).2

theorem deleteSessionsImpl_spec (ids : List Text) (db : DbOutcome) (bodies : Text → RemoveOutcome) :
    BodyInv (deleteSessionsImpl s ids db bodies) ∧
      (BodiesKept (deleteSessionsImpl s ids db bodies) ↔ DeletesRowsFirst s ids db bodies) := by
  by_cases hdb : db = .done
  · obtain ⟨hinv, hdeleted⟩ := deletedRows_spec hi hkept fun _ h => h
    rw [deleteSessionsImpl, if_pos hdb]
    exact ⟨hinv, iff_of_true hdeleted (.inl hdb)⟩
  · have hremoves := removes_removeBodies s bodies ids
    have heq : deleteSessionsImpl s ids db bodies = s.removeBodies bodies ids := by
      rw [deleteSessionsImpl, if_neg hdb]
    rw [heq]
    refine ⟨hremoves.inv hi, ?_⟩
    rw [hremoves.bodiesKept_iff hi hkept, removeBodies_rows, DeletesRowsFirst, or_iff_right hdb]
    constructor
    · intro hnone row hrow hid path hpath
      exact (removesBodies_of_own (hi.own row hrow path hpath)).mp (hnone row hrow path hpath) hid
    · intro hnone row hrow path hpath
      exact (removesBodies_of_own (hi.own row hrow path hpath)).mpr fun hid =>
        hnone row hrow hid path hpath

theorem deleteSessionsResult_spec (ids : List Text)
    (db : DbOutcome) (bodies : Text → RemoveOutcome) :
    BodyInv (deleteSessionsResult s ids db bodies) ∧
      BodiesKept (deleteSessionsResult s ids db bodies) := by
  unfold deleteSessionsResult
  split
  · refine deletedRows_spec hi hkept fun id hid => ?_
    simpa using (mem_filter.mp hid).2
  · exact ⟨hi, hkept⟩

theorem clearAllSessions_spec (db : DbOutcome) (bodies : RemoveOutcome) :
    BodyInv (clearAllSessions s db bodies) ∧ BodiesKept (clearAllSessions s db bodies) := by
  by_cases hdb : db = .done
  · have hrows : (clearAllSessions s db bodies).rows = [] := by
      rw [clearAllSessions, if_pos hdb]
      cases bodies <;> rfl
    exact kept_of_no_rows hrows
  · rw [clearAllSessions, if_neg hdb]
    exact ⟨hi, hkept⟩

theorem clearAllSessionsResult_spec (db : DbOutcome) (bodies : RemoveOutcome) :
    BodyInv (clearAllSessionsResult s db bodies) ∧ BodiesKept (clearAllSessionsResult s db bodies) := by
  unfold clearAllSessionsResult
  split
  · exact kept_of_no_rows rfl
  · exact ⟨hi, hkept⟩

/-- Every operation keeps what is known of the files, and it removes no file of a row exactly under its
condition. -/
theorem bodyStep_spec (h : bodyStep s e = some s') :
    BodyInv s' ∧ (BodiesKept s' ↔ KeepsBodies s e) := by
  cases e with
  | persist sessions lock =>
    cases h
    exact (persist_spec hi hkept sessions lock).imp_right (iff_of_true · trivial)
  | startupClear db bodies =>
    cases h
    exact (clearAllSessions_spec hi hkept db bodies).imp_right (iff_of_true · trivial)
  | clear db bodies =>
    cases h
    exact (clearAllSessionsResult_spec hi hkept db bodies).imp_right (iff_of_true · trivial)
  | delete ids db bodies =>
    cases h
    exact (deleteSessionsResult_spec hi hkept ids db bodies).imp_right (iff_of_true · trivial)
  | deleteAllButOne ids db bodies | evict ids db bodies =>
    cases h
    exact deleteSessionsImpl_spec hi hkept ids db bodies
  | rescan bodies =>
    simp only [bodyStep] at h
    split at h
    · cases h
    · next hpending =>
      cases h
      have htake := removes_take s fun path => bodies.takes path
      have hremoves : Removes (fun path => bodies.takes path) s
          { s.clearAll bodies with rescans := s.rescans - 1 } :=
        ⟨htake.rows, htake.files, htake.removed⟩
      refine ⟨hremoves.inv hi, (hremoves.bodiesKept_iff hi hkept).trans ?_⟩
      exact ⟨.inr, fun hg => hg.resolve_left hpending⟩

end

theorem keepsBodies_of_disabled (h : bodyStep s e = none) : KeepsBodies s e := by
  cases e with
  | rescan bodies =>
    simp only [bodyStep] at h
    split at h
    · next hnone => exact .inl hnone
    · cases h
  | persist | startupClear | clear | delete | deleteAllButOne | evict => cases h

/-- For every sequence of operations and every pattern of failures: after each operation no row refers to a
file that was removed, exactly when each delete of all sessions but one and each eviction deletes the rows of
the files it removes, and no background removal takes a file of a row. -/
theorem bodies_kept_iff (events : List BodyEvent) :
    Run.Along bodyStep (fun s e => ∀ s', bodyStep s e = some s' → BodiesKept s') .start events ↔
      Run.Along bodyStep KeepsBodies .start events :=
  Run.along_next_iff (fun _ _ _ hi hkept hstep => bodyStep_spec hi hkept hstep)
    (fun _ _ => keepsBodies_of_disabled) BodyInv.start bodiesKept_start

namespace Sample

/-- A session with a response of a megabyte, and an eviction of it that SQLite refuses. -/
def evictionFails : List BodyEvent :=
  [.persist [(⟨['a'], none, some 1048576⟩, ⟨.written true, .written true, .done⟩)] .done,
    .evict [['a']] .sqlError fun _ => .done]

def strandedRow : BodyRow := ⟨['a'], none, some (.file ⟨['a'], .response⟩)⟩

def stranded : BodyState := ⟨[strandedRow], [], [⟨['a'], .response⟩], 0⟩

end Sample

/-- The eviction removes the body although the row stays. -/
theorem eviction_strands_row :
    ∃ s, Run.exec bodyStep .start Sample.evictionFails = some s ∧ ¬ BodiesKept s := by
  refine ⟨Sample.stranded, by decide, fun h => ?_⟩
  exact h Sample.strandedRow (by decide) ⟨['a'], .response⟩ (by decide) (by decide)

end AiProxy.Sessions
