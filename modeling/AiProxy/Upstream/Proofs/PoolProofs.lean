import AiProxy.Lib.Population
import AiProxy.Upstream.Pool

/-!
# Structural invariants of the connection pool

How the building blocks of a step change the tallies of requests, and two invariants that hold in
every state: the requests in the queue of the notification are the parked ones (`Linked`), and
connections are filed under their own key, where they stay until they are closed (`Filed`).
-/

namespace AiProxy.Upstream

open Option List Population
open H1PooledConnection (closeAndAbort abortDriver markClosed free live tryAcquire)
open Request (wake goto decided)

/-- The connections that the code of a request in this phase refers to. -/
def Phase.conns : Phase → List ConnId
  | .retaining todo | .trying todo => todo
  | .announcing _ c | .acquiring _ c | .evicting _ c => [c]
  | .returning _ lease => lease.toList
  | .leased c | .releasing c => [c]
  | _ => []

namespace Pool

variable {s : Pool} {i : ReqId} {r r' : Request} {k : UpstreamKey} {p : Phase → Bool}
variable {t s' : Pool}

theorem tally_move (hr : s.reqs[i]? = some r) (hk : r'.key = r.key) (k : UpstreamKey)
    (p : Phase → Bool) :
    (s.move i r').tally k p + (decide (r.key = k) && p r.phase).toNat =
      s.tally k p + (decide (r.key = k) && p r'.phase).toNat := by
  have h := countP_set_add (p := fun q : Request => decide (q.key = k) && p q.phase) hr r'
  rw [hk] at h
  exact h

theorem tally_move_same (hr : s.reqs[i]? = some r) (hk : r'.key = r.key)
    (hp : p r'.phase = p r.phase) : (s.move i r').tally k p = s.tally k p := by
  have h := tally_move hr hk k p
  rw [hp] at h
  omega

theorem tally_move_of_ne (hr : s.reqs[i]? = some r) (hk : r'.key = r.key) (hne : r.key ≠ k) :
    (s.move i r').tally k p = s.tally k p := by
  simpa [hne] using tally_move hr hk k p

theorem tally_congr (h : t.reqs = s.reqs) (k : UpstreamKey) (p : Phase → Bool) :
    t.tally k p = s.tally k p := by
  unfold tally
  rw [h]

theorem tally_arrive (s : Pool) (key k : UpstreamKey) (hp : p .checking = false) :
    ({ s with reqs := s.reqs ++ [Request.new key] } : Pool).tally k p = s.tally k p := by
  simp [tally, Request.new, hp]

theorem tally_parked_notifyWaiters : s.notifyWaiters.tally k Phase.isParked = 0 := by
  refine countP_eq_zero.mpr fun q hq => ?_
  obtain ⟨q₀, -, rfl⟩ := mem_map.mp hq
  by_cases h : q₀.phase = .parked
  · simp [h, wake, Phase.isParked]
  · cases hp : q₀.phase <;> simp_all [Phase.isParked]

theorem one_le_tally (hr : s.reqs[i]? = some r) (hp : p r.phase = true) : 1 ≤ s.tally r.key p :=
  one_le_countP hr (by simp [hp])

theorem tally_mono {p q : Phase → Bool} (h : ∀ ph, p ph = true → q ph = true) :
    s.tally k p ≤ s.tally k q := countP_mono_left fun r _ hr => by
    simp only [Bool.and_eq_true] at hr ⊢
    exact ⟨hr.1, h _ hr.2⟩

/-! ## The queue of the notification -/

/-- The waiters are exactly the parked requests, each once. -/
structure Linked (s : Pool) : Prop where
  nodup : s.h1Notify.waiters.Nodup
  parked : ∀ i, i ∈ s.h1Notify.waiters ↔ ∃ r, s.reqs[i]? = some r ∧ r.phase = .parked

theorem Linked.congr (h : Linked s) (hn : t.h1Notify = s.h1Notify)
    (hr : t.reqs = s.reqs) : Linked t := ⟨hn ▸ h.nodup, by rw [hn, hr]; exact h.parked⟩

theorem parked_move (hr : s.reqs[i]? = some r) (r' : Request) (j : ReqId) :
    (∃ q, (s.move i r').reqs[j]? = some q ∧ q.phase = .parked) ↔
      if j = i then r'.phase = .parked else ∃ q, s.reqs[j]? = some q ∧ q.phase = .parked := by
  show (∃ q, (s.reqs.set i r')[j]? = some q ∧ _) ↔ _
  split
  · next hij =>
    subst hij
    rw [getElem?_set_self hr]
    simp
  · next hij => rw [getElem?_set_ne (Ne.symm hij)]

theorem Linked.move (h : Linked s) (hr : s.reqs[i]? = some r) (hp : r.phase ≠ .parked)
    (hp' : r'.phase ≠ .parked) : Linked (s.move i r') := by
  refine ⟨h.nodup, fun j => (h.parked j).trans ?_⟩
  rw [parked_move hr]
  split
  · next hij => simp [hij, hr, hp, hp']
  · rfl

theorem Linked.park (h : Linked s) (hr : s.reqs[i]? = some r) (hp : r.phase ≠ .parked)
    (hp' : r'.phase = .parked) {n : Notify ReqId} (hn : n.waiters = s.h1Notify.waiters ++ [i]) :
    Linked ({ s with h1Notify := n }.move i r') := by
  have hi : i ∉ s.h1Notify.waiters := by
    rw [h.parked i, hr]
    simp [hp]
  refine ⟨?_, fun j => ?_⟩
  · show n.waiters.Nodup
    rw [hn]
    exact nodup_append.mpr ⟨h.nodup, by simp, fun a ha b hb => by
      rw [mem_singleton.mp hb]
      exact fun hab => hi (hab ▸ ha)⟩
  · refine Iff.trans ?_ (parked_move (s := { s with h1Notify := n }) hr r' j).symm
    show j ∈ n.waiters ↔ _
    rw [hn, mem_append, h.parked j]
    split
    · next hij => simp [hij, hp']
    · next hij => simp [hij]

theorem Linked.leave (h : Linked s) (hr : s.reqs[i]? = some r) (hp' : r'.phase ≠ .parked) :
    Linked ({ s with h1Notify := s.h1Notify.forget i }.move i r') := by
  refine ⟨h.nodup.filter _, fun j => ?_⟩
  refine Iff.trans ?_ (parked_move (s := { s with h1Notify := s.h1Notify.forget i }) hr r' j).symm
  show j ∈ (s.h1Notify.forget i).waiters ↔ _
  rw [Notify.mem_forget, h.parked j]
  split
  · next hij => simp [hij, hp']
  · next hij => simp [hij]

theorem Linked.append (h : Linked s) (hp : r.phase ≠ .parked) :
    Linked { s with reqs := s.reqs ++ [r] } := by
  refine ⟨h.nodup, fun j => (h.parked j).trans ?_⟩
  constructor
  · rintro ⟨q, hq, hqp⟩
    exact ⟨q, by rw [getElem?_append_left (lt_length_of_getElem? hq)]; exact hq, hqp⟩
  · rintro ⟨q, hq, hqp⟩
    rcases getElem?_append_cases hq with ⟨-, rfl⟩ | hq
    · exact absurd hqp hp
    · exact ⟨q, hq, hqp⟩

theorem Linked.notifyWaiters (s : Pool) : Linked s.notifyWaiters := by
  refine ⟨nodup_nil, fun j => ?_⟩
  refine ⟨fun h => absurd h not_mem_nil, ?_⟩
  rintro ⟨q, hq, hqp⟩
  have hmem : q ∈ s.reqs.map _ := mem_of_getElem? hq
  obtain ⟨q₀, -, rfl⟩ := mem_map.mp hmem
  split at hqp
  · cases hqp
  · contradiction

/-- What `notify_one` does: it stores the permit when nobody is parked, and wakes one parked request
otherwise. -/
theorem Linked.notifyOne_cases (h : Linked s) :
    (s.h1Notify.waiters = [] ∧ s.notifyOne.reqs = s.reqs ∧ s.notifyOne.h1Notify.waiters = []) ∨
    ∃ w ws q, s.h1Notify.waiters = w :: ws ∧ s.reqs[w]? = some q ∧ q.phase = .parked ∧
      s.notifyOne.reqs = (s.move w (q.wake .one)).reqs ∧ s.notifyOne.h1Notify.waiters = ws := by
  cases hw : s.h1Notify.waiters with
  | nil =>
    obtain ⟨h1, h2⟩ := Notify.notifyOne_nil hw
    exact .inl ⟨rfl, by simp [Pool.notifyOne, h1], h2⟩
  | cons w ws =>
    obtain ⟨h1, h2⟩ := Notify.notifyOne_cons hw
    obtain ⟨q, hq, hqp⟩ := (h.parked w).mp (by rw [hw]; exact mem_cons_self)
    refine .inr ⟨w, ws, q, rfl, hq, hqp, ?_, h2⟩
    simp only [Pool.notifyOne, h1, Pool.move]
    rw [modify_eq_set_getElem?, hq]
    rfl

theorem Linked.notifyOne (h : Linked s) : Linked s.notifyOne := by
  rcases h.notifyOne_cases with ⟨hw, hreqs, hw'⟩ | ⟨w, ws, q, hw, hq, -, hreqs, hw'⟩
  · refine ⟨by rw [hw']; exact nodup_nil, fun j => ?_⟩
    rw [hw', hreqs, ← hw]
    exact h.parked j
  · have hnd := h.nodup
    rw [hw] at hnd
    obtain ⟨hmem, hnd⟩ := nodup_cons.mp hnd
    refine ⟨by rw [hw']; exact hnd, fun j => ?_⟩
    rw [hw', hreqs, parked_move hq]
    split
    · next hj => exact iff_of_false (hj ▸ hmem) nofun
    · next hj =>
      rw [← h.parked j, hw]
      simp [hj]

@[simp] theorem removePendingEntryIfCurrent_reqs (s : Pool) (k : UpstreamKey) (marker : ReqId) :
    (s.removePendingEntryIfCurrent k marker).reqs = s.reqs := by
  unfold removePendingEntryIfCurrent
  split <;> rfl

/-- What is left when a registration of a dial is removed, and by a notification, is left when the guard
of a dial is dropped. -/
theorem dropGuard_rule {P : Pool → Prop}
    (hcongr : ∀ t : Pool, t.connections = s.connections → t.conns = s.conns → t.reqs = s.reqs →
      t.h1Notify = s.h1Notify → P t)
    (hnotify : ∀ t, P t → P t.notifyWaiters) (i : ReqId) (k : UpstreamKey) (d : Dial) :
    P (s.dropGuard i k d) := by
  cases d with
  | first =>
    show P (s.removePendingEntryIfCurrent k i)
    unfold removePendingEntryIfCurrent
    split <;> exact hcongr _ rfl rfl rfl rfl
  | growth => exact hnotify _ (hcongr _ rfl rfl rfl rfl)

theorem Linked.dropGuard (h : Linked s) (i : ReqId) (k : UpstreamKey) (d : Dial) :
    Linked (s.dropGuard i k d) :=
  dropGuard_rule (fun _ _ _ hr hn => h.congr hn hr) (fun t _ => .notifyWaiters t) i k d

/-- `t` is `s` after some parked requests were woken. -/
structure Woken (s t : Pool) : Prop where
  connections : t.connections = s.connections
  pending : t.pending = s.pending
  h1Connecting : t.h1Connecting = s.h1Connecting
  conns : t.conns = s.conns
  reqs : ∀ (j : ReqId) (q' : Request), t.reqs[j]? = some q' → ∃ q, s.reqs[j]? = some q ∧
    (q' = q ∨ q.phase = .parked ∧ ∃ w, q' = q.wake w)
  tally : ∀ (k : UpstreamKey) (p : Phase → Bool), p .parked = false → (∀ w, p (.woken w) = false) →
    t.tally k p = s.tally k p

theorem Woken.entries (h : Woken s t) (k : UpstreamKey) : t.entries k = s.entries k := by
  unfold Pool.entries
  rw [h.connections]

theorem woken_notifyWaiters (s : Pool) : Woken s s.notifyWaiters where
  connections := rfl
  pending := rfl
  h1Connecting := rfl
  conns := rfl
  reqs j q' hq' := by
    have hq' : (s.reqs.map _)[j]? = some q' := hq'
    rw [getElem?_map] at hq'
    obtain ⟨q, hq, rfl⟩ := map_eq_some_iff.mp hq'
    refine ⟨q, hq, ?_⟩
    split
    · next hp => exact .inr ⟨hp, _, rfl⟩
    · exact .inl rfl
  tally k p hparked hwoken := by
    refine countP_map_congr fun q => ?_
    by_cases hq : q.phase = .parked
    · simp [hq, wake, hparked, hwoken]
    · simp [hq]

theorem Linked.woken_notifyOne (h : Linked s) : Woken s s.notifyOne := by
  rcases h.notifyOne_cases with ⟨-, hreqs, -⟩ | ⟨w, ws, q, -, hq, hqp, hreqs, -⟩
  · exact ⟨rfl, rfl, rfl, rfl, fun j q' hq' => ⟨q', hreqs ▸ hq', .inl rfl⟩,
      fun k p _ _ => tally_congr hreqs k p⟩
  · refine ⟨rfl, rfl, rfl, rfl, fun j q' hq' => ?_, fun k p hparked hwoken => ?_⟩
    · rw [hreqs] at hq'
      rcases getElem?_set_cases hq' with ⟨rfl, rfl⟩ | ⟨-, hq'⟩
      · exact ⟨q, hq, .inr ⟨hqp, _, rfl⟩⟩
      · exact ⟨q', hq', .inl rfl⟩
    · have hmove : (s.move w (q.wake .one)).tally k p = s.tally k p :=
        tally_move_same hq rfl (by rw [hqp, hparked]; exact hwoken .one)
      exact (tally_congr hreqs k p).trans hmove

theorem Linked.woken_move (h : Linked s) (hr : s.reqs[i]? = some r) (hp : r.phase ≠ .parked)
    (hp' : r'.phase ≠ .parked) : Woken (s.move i r') (s.move i r').notifyOne :=
  (h.move hr hp hp').woken_notifyOne

/-! ## Purges -/

/-- `t` is `s` after connections were closed, locked or dropped: nothing was registered, nothing
became free, and what is no longer an entry of its key is closed. -/
structure Purge (s t : Pool) : Prop where
  reqs : t.reqs = s.reqs
  pending : t.pending = s.pending
  h1Connecting : t.h1Connecting = s.h1Connecting
  h1Notify : t.h1Notify = s.h1Notify
  absent : ∀ k, s.connections k = none → t.connections k = none
  entries : ∀ k, (t.entries k).Sublist (s.entries k)
  kept : ∀ c x, s.conns[c]? = some x → ∃ x', t.conns[c]? = some x' ∧ x'.key = x.key ∧
    (x'.free = true → x.free = true) ∧
    (x'.closed = false → x.closed = false ∧ (c ∈ s.entries x.key → c ∈ t.entries x.key))
  length : t.conns.length = s.conns.length

theorem Purge.refl (s : Pool) : Purge s s :=
  ⟨rfl, rfl, rfl, rfl, fun _ h => h, fun _ => List.Sublist.refl _,
    fun _ x hx => ⟨x, hx, rfl, id, fun h => ⟨h, id⟩⟩, rfl⟩

theorem Purge.trans {s u : Pool} (h : Purge s t) (h' : Purge t u) : Purge s u where
  reqs := h'.reqs.trans h.reqs
  pending := h'.pending.trans h.pending
  h1Connecting := h'.h1Connecting.trans h.h1Connecting
  h1Notify := h'.h1Notify.trans h.h1Notify
  absent k hk := h'.absent k (h.absent k hk)
  entries k := (h'.entries k).trans (h.entries k)
  kept c x hx := by
    obtain ⟨y, hy, hky, hfy, hcy⟩ := h.kept c x hx
    obtain ⟨z, hz, hkz, hfz, hcz⟩ := h'.kept c y hy
    refine ⟨z, hz, hkz.trans hky, fun hf => hfy (hfz hf), fun hc => ?_⟩
    have hy' := hcy (hcz hc).1
    exact ⟨hy'.1, fun hm => hky ▸ (hcz hc).2 (hky ▸ hy'.2 hm)⟩
  length := h'.length.trans h.length

theorem Purge.before (h : Purge s t) {c : ConnId} {x' : H1PooledConnection}
    (hx' : t.conns[c]? = some x') : ∃ x, s.conns[c]? = some x ∧ x'.key = x.key ∧
      (x'.free = true → x.free = true) ∧
      (x'.closed = false → x.closed = false ∧ (c ∈ s.entries x.key → c ∈ t.entries x.key)) := by
  have hlt : c < s.conns.length := h.length ▸ lt_length_of_getElem? hx'
  obtain ⟨x, hx⟩ : ∃ x, s.conns[c]? = some x := ⟨_, getElem?_eq_getElem hlt⟩
  obtain ⟨y, hy, hrest⟩ := h.kept c x hx
  rw [hx'] at hy
  obtain rfl := Option.some.inj hy
  exact ⟨x, hx, hrest⟩

theorem Purge.modifyConn (s : Pool) (c : ConnId) {f : H1PooledConnection → H1PooledConnection}
    (hkey : ∀ x, (f x).key = x.key) (hfree : ∀ x, (f x).free = true → x.free = true)
    (hclosed : ∀ x, (f x).closed = false → x.closed = false) : Purge s (s.modifyConn c f) where
  reqs := rfl
  pending := rfl
  h1Connecting := rfl
  h1Notify := rfl
  absent _ h := h
  entries _ := List.Sublist.refl _
  kept d x hx := by
    refine ⟨if c = d then f x else x, ?_, ?_⟩
    · show (s.conns.modify c f)[d]? = _
      rw [getElem?_modify, hx]
      rfl
    · split
      · exact ⟨hkey x, hfree x, fun h => ⟨hclosed x h, id⟩⟩
      · exact ⟨rfl, id, fun h => ⟨h, id⟩⟩
  length := length_modify ..

theorem closeAndAbort_not_free (x : H1PooledConnection) : x.closeAndAbort.free = false := by
  simp [closeAndAbort, abortDriver, markClosed, free, live]

theorem Purge.closeLeased (s : Pool) (c : ConnId) : Purge s (s.modifyConn c closeAndAbort) :=
  Purge.modifyConn s c (fun _ => rfl) (fun x h => by simp [closeAndAbort_not_free] at h)
    (fun _ h => nomatch h)

theorem tryAcquire_cases (x : H1PooledConnection) :
    (x.free = true ∧ x.tryAcquire = (true, { x with locked := true })) ∨
    (x.free = false ∧ (x.tryAcquire = (false, x) ∨ x.tryAcquire = (false, x.markClosed))) := by
  unfold tryAcquire free live
  cases x.closed <;> cases x.locked <;> cases x.senderClosed <;> simp

theorem Purge.tryAcquire (s : Pool) (c : ConnId) :
    Purge s (s.modifyConn c fun x => x.tryAcquire.2) := by
  refine Purge.modifyConn s c (fun x => ?_) (fun x => ?_) (fun x => ?_)
  all_goals
    rcases tryAcquire_cases x with ⟨hf, ha⟩ | ⟨hf, ha | ha⟩
    all_goals simp_all [markClosed, free, live]

theorem entries_update (s : Pool) (k k' : UpstreamKey) (o : Option (List ConnId)) :
    ({ s with connections := Function.update s.connections k o } : Pool).entries k' =
      if k' = k then o.getD [] else s.entries k' := by
  unfold entries
  by_cases h : k' = k
  · subst h
    simp
  · simp [h]

theorem entries_retain (s : Pool) (k k' : UpstreamKey) (keep : ConnId → Bool) :
    (s.retain k keep).entries k' = if k' = k then (s.entries k).filter keep else s.entries k' := by
  have h := entries_update s k k' ((s.connections k).map (·.filter keep))
  refine Eq.trans h ?_
  unfold entries
  cases s.connections k <;> simp

theorem Purge.retain (s : Pool) (k : UpstreamKey) (keep : ConnId → Bool) :
    Purge s (s.retain k keep) where
  reqs := rfl
  pending := rfl
  h1Connecting := rfl
  h1Notify := rfl
  absent k' hk := by
    show Function.update s.connections k _ k' = none
    by_cases h : k' = k
    · subst h
      simp [hk]
    · simp [h, hk]
  entries k' := by
    rw [entries_retain]
    split
    · next h =>
      subst h
      exact filter_sublist
    · exact List.Sublist.refl _
  kept c x hx := by
    refine ⟨if c ∈ s.entries k ∧ keep c = false then x.closeAndAbort else x, ?_, ?_⟩
    · show (s.conns.mapIdx _)[c]? = _
      rw [getElem?_mapIdx, hx]
      rfl
    · split
      · exact ⟨rfl, fun h => by simp [closeAndAbort_not_free] at h, fun h => nomatch h⟩
      · next hkeep =>
        refine ⟨rfl, id, fun h => ⟨h, fun hm => ?_⟩⟩
        rw [entries_retain]
        split
        · next hk =>
          subst hk
          refine mem_filter.mpr ⟨hm, ?_⟩
          by_contra hc
          exact hkeep ⟨hm, by simpa using hc⟩
        · exact hm
  length := length_mapIdx

theorem Purge.removeKey (h : s.entries k = []) : Purge s (s.removeKey k) := by
  have he : ∀ k', (s.removeKey k).entries k' = s.entries k' := by
    intro k'
    refine Eq.trans (entries_update s k k' none) ?_
    split
    · next hk =>
      subst hk
      exact h.symm
    · rfl
  refine ⟨rfl, rfl, rfl, rfl, fun k' hk => ?_, fun k' => he k' ▸ List.Sublist.refl _,
    fun c x hx => ⟨x, hx, rfl, id, fun hc => ⟨hc, fun hm => (he x.key).symm ▸ hm⟩⟩, rfl⟩
  show Function.update s.connections k none k' = none
  by_cases hkk : k' = k
  · subst hkk
    simp
  · simp [hkk, hk]

theorem Purge.removeIfEmpty (s : Pool) (k : UpstreamKey) : Purge s (s.removeIfEmpty k) := by
  unfold Pool.removeIfEmpty
  split
  · next h => exact Purge.removeKey (by simp only [Pool.entries, h, getD_some])
  · exact Purge.refl s

theorem Purge.shutdown (s : Pool) : Purge s { s with
      connections := fun _ => none
      conns := s.conns.mapIdx fun c x => if c ∈ s.entries x.key then x.closeAndAbort else x } where
  reqs := rfl
  pending := rfl
  h1Connecting := rfl
  h1Notify := rfl
  absent _ _ := rfl
  entries _ := nil_sublist _
  kept c x hx := by
    refine ⟨if c ∈ s.entries x.key then x.closeAndAbort else x, ?_, ?_⟩
    · show (s.conns.mapIdx _)[c]? = _
      rw [getElem?_mapIdx, hx]
      rfl
    · split
      · exact ⟨rfl, fun h => by simp [closeAndAbort_not_free] at h, fun h => nomatch h⟩
      · next hm => exact ⟨rfl, id, fun h => ⟨h, fun h' => absurd h' hm⟩⟩
  length := length_mapIdx

/-! ## What a request can do -/

/-- The transitions of the request `r` at index `i`, one for each branch of its code. -/
inductive Transition (s : Pool) (i : ReqId) (r : Request) : Act → Pool → Prop
  | scan {entries} (hph : r.phase = .checking) (hw : s.writer = none)
      (hc : s.connections r.key = some entries) :
      Transition s i r .lock ({ s with writer := some i }.move i (r.goto (.retaining entries)))
  | wait {dialler} (hph : r.phase = .checking) (hw : s.writer = none)
      (hc : s.connections r.key = none) (hp : s.pending r.key = some dialler) :
      Transition s i r .lock (s.move i (r.decided (.waiting dialler)))
  | dialFirst (hph : r.phase = .checking) (hw : s.writer = none)
      (hc : s.connections r.key = none) (hp : s.pending r.key = none) :
      Transition s i r .lock ({ s with pending := Function.update s.pending r.key (some i) }.move i
        { r.decided (.dialing .first) with chan := .unsent })
  | retained {expired} (hph : r.phase = .retaining []) :
      Transition s i r (.retainNext expired) (s.move i (r.goto (.trying (s.entries r.key))))
  | retain {expired c todo x} (hph : r.phase = .retaining (c :: todo)) (hx : s.conns[c]? = some x) :
      Transition s i r (.retainNext expired)
        ((s.retain r.key fun d => d != c || x.isAliveAndNotIdle expired).move i
          (r.goto (.retaining todo)))
  | removeKey (hph : r.phase = .trying []) (he : s.entries r.key = []) :
      Transition s i r .tryNext
        (({ s with writer := none }.removeKey r.key).move i (r.decided .checking))
  | dialGrowth (hph : r.phase = .trying []) (he : s.entries r.key ≠ [])
      (hlt : (s.entries r.key).length + s.h1Connecting r.key < maxH1ConnectionsPerKey) :
      Transition s i r .tryNext
        ({ s with
            writer := none
            h1Connecting := Function.update s.h1Connecting r.key (s.h1Connecting r.key + 1) }.move i
          (r.decided (.dialing .growth)))
  | queue (hph : r.phase = .trying []) :
      Transition s i r .tryNext ({ s with writer := none }.move i (r.decided .queueing))
  | acquire {c todo x} (hph : r.phase = .trying (c :: todo)) (hx : s.conns[c]? = some x)
      (ha : x.tryAcquire.1 = true) :
      Transition s i r .tryNext
        (({ s with writer := none }.modifyConn c fun x => x.tryAcquire.2).move i
          (r.decided (.leased c)))
  | busy {c todo x} (hph : r.phase = .trying (c :: todo)) (hx : s.conns[c]? = some x)
      (ha : x.tryAcquire.1 = false) :
      Transition s i r .tryNext
        ((s.modifyConn c fun x => x.tryAcquire.2).move i (r.goto (.trying todo)))
  | takePermit (hph : r.phase = .queueing) (hp : s.h1Notify.permit = true) :
      Transition s i r .poll ({ s with h1Notify := (s.h1Notify.poll i).2 }.move i
        { r with phase := .checking, wakeup := true })
  | park (hph : r.phase = .queueing) (hp : s.h1Notify.permit = false) :
      Transition s i r .poll
        ({ s with h1Notify := (s.h1Notify.poll i).2 }.move i (r.decided .parked))
  | resume {w} (hph : r.phase = .woken w) :
      Transition s i r .resume (s.move i (r.goto .checking))
  | waitSent {dialler q} (hph : r.phase = .waiting dialler) (hq : s.reqs[dialler]? = some q)
      (hc : q.chan = .sent) :
      Transition s i r .waitDone (s.move i (r.goto .checking))
  | waitClosed {dialler q} (hph : r.phase = .waiting dialler) (hq : s.reqs[dialler]? = some q)
      (hc : q.chan = .closed) :
      Transition s i r .waitDone
        ((s.removePendingEntryIfCurrent r.key dialler).move i (r.goto .checking))
  | dialFailed {d} (hph : r.phase = .dialing d) :
      Transition s i r .dialFailed
        (s.move i { r with phase := .returning d none, chan := chanAfter r d .sent })
  | register {d senderClosed driver} (hph : r.phase = .dialing d) (hw : s.writer = none) :
      Transition s i r (.register senderClosed driver)
        ({ s with
            connections := Function.update s.connections r.key
              (some (s.entries r.key ++ [s.conns.length]))
            conns := s.conns ++ [H1PooledConnection.new r.key senderClosed driver] }.move i
          { r with phase := .announcing d s.conns.length, chan := chanAfter r d .sent })
  | announce {d c} (hph : r.phase = .announcing d c) :
      Transition s i r .announce (s.move i (r.goto (.acquiring d c))).notifyWaiters
  | probed {d c} (hph : r.phase = .acquiring d c) :
      Transition s i r (.acquireNew true) (s.move i (r.goto (.evicting d c)))
  | acquireNew {d c x} (hph : r.phase = .acquiring d c) (hx : s.conns[c]? = some x)
      (ha : x.tryAcquire.1 = true) :
      Transition s i r (.acquireNew false)
        ((s.modifyConn c fun x => x.tryAcquire.2).move i (r.goto (.returning d (some c))))
  | unavailable {d c x} (hph : r.phase = .acquiring d c) (hx : s.conns[c]? = some x)
      (ha : x.tryAcquire.1 = false) :
      Transition s i r (.acquireNew false)
        ((s.modifyConn c fun x => x.tryAcquire.2).move i (r.goto (.evicting d c)))
  | evictNew {d c} (hph : r.phase = .evicting d c) :
      Transition s i r .evictNew ((s.move i (r.goto (.returning d none))).evictIfSame r.key c)
  | returnLease {d c} (hph : r.phase = .returning d (some c)) :
      Transition s i r .dropGuards ((s.move i (r.goto (.leased c))).dropGuard i r.key d)
  | returnError {d} (hph : r.phase = .returning d none) :
      Transition s i r .dropGuards ((s.move i (r.goto .finished)).dropGuard i r.key d)
  | cancelIdle (hph : r.phase = .checking ∨ (∃ dialler, r.phase = .waiting dialler) ∨
        r.phase = .woken .all) :
      Transition s i r .cancel (s.move i (r.decided .finished))
  | cancelParked (hph : r.phase = .parked) :
      Transition s i r .cancel
        ({ s with h1Notify := s.h1Notify.forget i }.move i (r.decided .finished))
  | cancelWoken (hph : r.phase = .woken .one) :
      Transition s i r .cancel (s.move i (r.decided .finished)).notifyOne
  | cancelDial {d} (hph : r.phase = .dialing d) :
      Transition s i r .cancel
        ((s.move i { r with phase := .finished, chan := chanAfter r d .closed }).dropGuard i r.key d)
  | cancelEvict {d c} (hph : r.phase = .evicting d c) :
      Transition s i r .cancel ((s.move i (r.goto .finished)).dropGuard i r.key d)
  | closeLeased {c} (hph : r.phase = .leased c) :
      Transition s i r .closeLeased (s.modifyConn c H1PooledConnection.closeAndAbort)
  | dropLease {c} (hph : r.phase = .leased c) :
      Transition s i r .dropLease (s.move i (r.goto (.releasing c))).notifyOne
  | unlock {c} (hph : r.phase = .releasing c) :
      Transition s i r .unlock
        ((s.modifyConn c fun x => { x with locked := false }).move i (r.goto .finished))

theorem transition_of_lock (h : s.lock i r = some s') : Transition s i r .lock s' := by
  unfold lock at h
  split at h
  case h_2 => cases h
  next hph hw =>
    split at h
    case h_1 entries hc =>
      cases h
      exact .scan hph hw hc
    case h_2 hc =>
      split at h
      case h_1 dialler hp =>
        cases h
        exact .wait hph hw hc hp
      case h_2 hp =>
        cases h
        exact .dialFirst hph hw hc hp

theorem transition_of_retainNext {expired : Bool}
    (h : s.retainNext i r expired = some s') : Transition s i r (.retainNext expired) s' := by
  unfold retainNext at h
  split at h
  case h_1 hph =>
    cases h
    exact .retained hph
  case h_2 c todo hph =>
    split at h
    case h_1 x hx =>
      cases h
      exact .retain hph hx
    case h_2 => cases h
  case h_3 => cases h

theorem transition_of_tryNext (h : s.tryNext i r = some s') : Transition s i r .tryNext s' := by
  unfold tryNext at h
  split at h
  case h_1 hph =>
    cases h
    unfold decideAction
    split
    case isTrue he => exact .removeKey hph he
    case isFalse he =>
      split
      case isTrue hlt => exact .dialGrowth hph he hlt
      case isFalse => exact .queue hph
  case h_2 c todo hph =>
    split at h
    case h_1 x hx =>
      split at h
      case isTrue ha =>
        cases h
        exact .acquire hph hx ha
      case isFalse ha =>
        cases h
        exact .busy hph hx (by simpa using ha)
    case h_2 => cases h
  case h_3 => cases h

theorem transition_of_poll (h : s.poll i r = some s') : Transition s i r .poll s' := by
  unfold poll at h
  split at h
  case h_1 hph =>
    cases hp : s.h1Notify.permit with
    | true =>
      rw [if_pos (Notify.poll_permit hp i).1] at h
      cases h
      exact .takePermit hph hp
    | false =>
      rw [if_neg (by simp [(Notify.poll_queue hp i).1])] at h
      cases h
      exact .park hph hp
  case h_2 => cases h

theorem transition_of_waitDone (h : s.waitDone i r = some s') : Transition s i r .waitDone s' := by
  unfold waitDone at h
  split at h
  case h_1 dialler hph =>
    split at h
    case h_1 q hq =>
      split at h
      case h_1 => cases h
      case h_2 hc =>
        cases h
        exact .waitSent hph hq hc
      case h_3 hc =>
        cases h
        exact .waitClosed hph hq hc
    case h_2 => cases h
  case h_2 => cases h

theorem transition_of_acquireNew {probed : Bool}
    (h : s.acquireNew i r probed = some s') : Transition s i r (.acquireNew probed) s' := by
  unfold acquireNew at h
  split at h
  case h_1 d c hph =>
    split at h
    case h_1 x hx =>
      cases probed with
      | true =>
        cases h
        exact .probed hph
      | false =>
        cases ha : x.tryAcquire.1 with
        | true =>
          simp only [ha, Bool.false_eq_true, if_false, if_true] at h
          cases h
          exact .acquireNew hph hx ha
        | false =>
          simp only [ha, Bool.false_eq_true, if_false] at h
          cases h
          exact .unavailable hph hx ha
    case h_2 => cases h
  case h_2 => cases h

theorem transition_of_cancel (h : s.cancel i r = some s') : Transition s i r .cancel s' := by
  unfold cancel at h
  split at h <;> cases h
  case h_1 hph => exact .cancelIdle (.inl hph)
  case h_2 dialler hph => exact .cancelIdle (.inr (.inl ⟨dialler, hph⟩))
  case h_3 hph => exact .cancelParked hph
  case h_4 hph => exact .cancelWoken hph
  case h_5 hph => exact .cancelIdle (.inr (.inr hph))
  case h_6 d hph => exact .cancelDial hph
  case h_7 d c hph => exact .cancelEvict hph

theorem transition_of_stepRequest {a : Act} (h : s.stepRequest i r a = some s') :
    Transition s i r a s' := by
  cases a with
  | lock => exact transition_of_lock h
  | retainNext expired => exact transition_of_retainNext h
  | tryNext => exact transition_of_tryNext h
  | poll => exact transition_of_poll h
  | waitDone => exact transition_of_waitDone h
  | acquireNew probed => exact transition_of_acquireNew h
  | cancel => exact transition_of_cancel h
  | resume =>
    simp only [stepRequest, Pool.resume] at h
    split at h <;> cases h
    next hph => exact .resume hph
  | dialFailed =>
    simp only [stepRequest, Pool.dialFailed] at h
    split at h <;> cases h
    next hph => exact .dialFailed hph
  | register senderClosed driver =>
    simp only [stepRequest, Pool.register] at h
    split at h <;> cases h
    next hph hw => exact .register hph hw
  | announce =>
    simp only [stepRequest, Pool.announce] at h
    split at h <;> cases h
    next hph => exact .announce hph
  | evictNew =>
    simp only [stepRequest, Pool.evictNew] at h
    split at h <;> cases h
    next hph _ => exact .evictNew hph
  | dropGuards =>
    simp only [stepRequest, Pool.dropGuards] at h
    split at h <;> cases h
    · next hph => exact .returnLease hph
    · next hph => exact .returnError hph
  | closeLeased =>
    simp only [stepRequest, Pool.closeLeased] at h
    split at h <;> cases h
    next hph => exact .closeLeased hph
  | dropLease =>
    simp only [stepRequest, Pool.dropLease] at h
    split at h <;> cases h
    next hph => exact .dropLease hph
  | unlock =>
    simp only [stepRequest, Pool.unlock] at h
    split at h <;> cases h
    next hph => exact .unlock hph

theorem evictIfSame_eq (s : Pool) (k : UpstreamKey) (c : ConnId) :
    ∃ t, Purge s t ∧ s.evictIfSame k c = t.notifyWaiters :=
  ⟨_, (Purge.retain s k _).trans (Purge.removeIfEmpty _ k), rfl⟩

theorem evictKey_eq (s : Pool) (k : UpstreamKey) :
    ∃ t, Purge s t ∧ s.evictKey k = t.notifyWaiters := by
  refine ⟨_, (Purge.retain s k fun _ => false).trans (Purge.removeKey ?_), rfl⟩
  rw [entries_retain]
  simp

/-- What a step of the pool is: a new call, a transition of a request, or a purge, with or without a
notification of all waiters. -/
inductive Stepped (s : Pool) : Event → Pool → Prop
  | arrive (key : UpstreamKey) :
      Stepped s (.getOrConnect key) { s with reqs := s.reqs ++ [Request.new key] }
  | act {i r a s'} (hr : s.reqs[i]? = some r) (ht : Transition s i r a s') : Stepped s (.act i a) s'
  | purge {e t} (hp : Purge s t) : Stepped s e t
  | evict {e t} (hp : Purge s t) : Stepped s e t.notifyWaiters

theorem stepped_of_stepDriver {e : Event} {c : ConnId} {x : H1PooledConnection}
    (h : s.stepDriver c x e = some s') : Stepped s e s' := by
  unfold stepDriver at h
  split at h
  case h_1 =>
    cases h
    exact .purge (Purge.modifyConn s c (fun _ => rfl)
      (fun x h => by simp [free, live] at h) fun _ h => h)
  case h_2 =>
    split at h
    · cases h
      exact .purge (Purge.modifyConn s c (fun _ => rfl)
        (fun x h => by simp [free, live] at h)
        fun _ h => nomatch h)
    · cases h
  case h_3 =>
    split at h
    · cases h
      have hgone : Purge s (s.modifyConn c fun x => { x with driver := .gone }) :=
        Purge.modifyConn s c (fun _ => rfl) (fun _ h => h) fun _ h => h
      obtain ⟨t, ht, he⟩ := evictIfSame_eq (s.modifyConn c fun x => { x with driver := .gone })
        x.key c
      rw [he]
      exact .evict (hgone.trans ht)
    · cases h
  case h_4 => cases h

theorem stepped_of_step {e : Event} (h : s.step e = some s') : Stepped s e s' := by
  unfold step at h
  split at h
  case h_1 key =>
    cases h
    exact .arrive key
  case h_2 i a =>
    obtain ⟨r, hr, h⟩ := bind_eq_some_iff.mp h
    exact .act hr (transition_of_stepRequest h)
  case h_3 key =>
    split at h <;> cases h
    obtain ⟨t, ht, he⟩ := evictKey_eq s key
    rw [he]
    exact .evict ht
  case h_4 key c =>
    split at h <;> cases h
    obtain ⟨t, ht, he⟩ := evictIfSame_eq s key c
    exact (he ▸ Stepped.evict ht : Stepped s _ (s.evictIfSame key c))
  case h_5 =>
    split at h <;> cases h
    exact .evict (Purge.shutdown s)
  case h_6 c expired =>
    obtain ⟨x, -, h⟩ := bind_eq_some_iff.mp h
    split at h <;> cases h
    exact .purge ((Purge.retain s x.key _).trans (Purge.removeIfEmpty _ x.key))
  case h_7 c | h_8 c | h_9 c =>
    obtain ⟨x, -, h⟩ := bind_eq_some_iff.mp h
    exact stepped_of_stepDriver h

theorem Linked.purge (h : Linked s) (hp : Purge s t) : Linked t := h.congr hp.h1Notify hp.reqs

theorem Linked.transition {a : Act} (h : Linked s) (hr : s.reqs[i]? = some r)
    (ht : Transition s i r a s') : Linked s' := by
  have quiet : ∀ {t : Pool} {q : Request}, t.h1Notify = s.h1Notify → t.reqs = s.reqs →
      r.phase ≠ .parked → q.phase ≠ .parked → Linked (t.move i q) := by
    intro t q hn hreqs hp hq
    exact (h.congr hn hreqs).move (hreqs ▸ hr) hp hq
  cases ht with
  | scan hph | retained hph | retain hph | busy hph | resume hph | waitSent hph | probed hph
  | acquireNew hph | unavailable hph | unlock hph =>
    exact quiet rfl rfl (by simp [hph]) (by simp [goto])
  | wait hph | dialFirst hph | removeKey hph | dialGrowth hph | queue hph | acquire hph =>
    exact quiet rfl rfl (by simp [hph]) (by simp [decided])
  | takePermit hph hp =>
    have hw : (s.h1Notify.poll i).2.waiters = s.h1Notify.waiters := (Notify.poll_permit hp i).2
    have hl : Linked { s with h1Notify := (s.h1Notify.poll i).2 } :=
      ⟨hw.symm ▸ h.nodup, fun j => (iff_of_eq (congrArg (j ∈ ·) hw)).trans (h.parked j)⟩
    exact hl.move hr (by simp [hph]) (by simp)
  | park hph hp => exact h.park hr (by simp [hph]) rfl (Notify.poll_queue hp i).2
  | @waitClosed dialler q hph =>
    have hl : Linked (s.removePendingEntryIfCurrent r.key dialler) := h.dropGuard dialler r.key .first
    exact hl.move (by simpa using hr) (by simp [hph]) (by simp [goto])
  | dialFailed hph | register hph => exact quiet rfl rfl (by simp [hph]) (by simp)
  | announce | evictNew => exact Linked.notifyWaiters _
  | returnLease hph | returnError hph | cancelEvict hph =>
    exact (quiet rfl rfl (by simp [hph]) (by simp [goto])).dropGuard i _ _
  | cancelIdle hph =>
    refine quiet rfl rfl ?_ (by simp [decided])
    rcases hph with hph | ⟨dialler, hph⟩ | hph <;> simp [hph]
  | cancelParked => exact h.leave hr (by simp [decided])
  | cancelWoken hph => exact (quiet rfl rfl (by simp [hph]) (by simp [decided])).notifyOne
  | cancelDial hph => exact (quiet rfl rfl (by simp [hph]) (by simp)).dropGuard i _ _
  | closeLeased => exact h.purge (Purge.closeLeased s _)
  | dropLease hph => exact (quiet rfl rfl (by simp [hph]) (by simp [goto])).notifyOne

theorem Linked.step {e : Event} (h : Linked s) (hs : s.step e = some s') : Linked s' := by
  cases stepped_of_step hs with
  | arrive key => exact h.append (by simp [Request.new])
  | act hr ht => exact h.transition hr ht
  | purge hp => exact h.purge hp
  | evict => exact Linked.notifyWaiters _

theorem Linked.new : Linked Pool.new :=
  ⟨nodup_nil, fun _ => ⟨fun h => absurd h not_mem_nil, fun ⟨_, h, _⟩ => nomatch h⟩⟩

/-! ## Connections and their keys -/

/-- The entries of a key are connections of that key and hold all of them that are not closed; a
request only deals with connections of its own key. -/
structure Filed (s : Pool) : Prop where
  entry : ∀ k, ∀ c ∈ s.entries k, ∃ x, s.conns[c]? = some x ∧ x.key = k
  unclosed : ∀ (c : ConnId) (x : H1PooledConnection), s.conns[c]? = some x → x.closed = false →
    c ∈ s.entries x.key
  held : ∀ (i : ReqId) (r : Request), s.reqs[i]? = some r → ∀ c ∈ r.phase.conns,
    ∃ x, s.conns[c]? = some x ∧ x.key = r.key

section

variable (h : Filed s)

include h

theorem Filed.congr (hc : t.connections = s.connections) (hx : t.conns = s.conns)
    (hr : t.reqs = s.reqs) : Filed t := by
  have he : ∀ k, t.entries k = s.entries k := fun k => by unfold entries; rw [hc]
  refine ⟨fun k => ?_, fun c x => ?_, ?_⟩
  · rw [he, hx]
    exact h.entry k
  · rw [he, hx]
    exact h.unclosed c x
  · rw [hr, hx]
    exact h.held

theorem Filed.move (hheld : ∀ c ∈ r'.phase.conns, ∃ x, s.conns[c]? = some x ∧ x.key = r'.key) :
    Filed (s.move i r') := by
  refine ⟨h.entry, h.unclosed, fun j q hq => ?_⟩
  rcases getElem?_set_cases hq with ⟨-, rfl⟩ | ⟨-, hq⟩
  · exact hheld
  · exact h.held j q hq

theorem Filed.move_sub (hr : s.reqs[i]? = some r) (hk : r'.key = r.key)
    (hsub : ∀ c ∈ r'.phase.conns, c ∈ r.phase.conns) : Filed (s.move i r') :=
  h.move fun c hc => hk ▸ h.held i r hr c (hsub c hc)

theorem Filed.purge (hp : Purge s t) : Filed t where
  entry k c hc := by
    obtain ⟨x, hx, hk⟩ := h.entry k c ((hp.entries k).subset hc)
    obtain ⟨x', hx', hk', -⟩ := hp.kept c x hx
    exact ⟨x', hx', hk'.trans hk⟩
  unclosed c x' hx' hc := by
    obtain ⟨x, hx, hk, -, hopen⟩ := hp.before hx'
    obtain ⟨hxc, hstay⟩ := hopen hc
    rw [hk]
    exact hstay (h.unclosed c x hx hxc)
  held j q hq c hc := by
    obtain ⟨x, hx, hk⟩ := h.held j q (hp.reqs ▸ hq) c hc
    obtain ⟨x', hx', hk', -⟩ := hp.kept c x hx
    exact ⟨x', hx', hk'.trans hk⟩

theorem Filed.woken (hw : Woken s t) : Filed t := by
  refine ⟨fun k => ?_, fun c x => ?_, fun j q' hq' c hc => ?_⟩
  · rw [hw.entries, hw.conns]
    exact h.entry k
  · rw [hw.entries, hw.conns]
    exact h.unclosed c x
  · rw [hw.conns]
    obtain ⟨q, hq, rfl | ⟨-, w, rfl⟩⟩ := hw.reqs j q' hq'
    · exact h.held j q' hq c hc
    · exact absurd hc not_mem_nil

theorem Filed.dropGuard (i : ReqId) (k : UpstreamKey) (d : Dial) : Filed (s.dropGuard i k d) :=
  dropGuard_rule (fun _ hc hx hr _ => h.congr hc hx hr) (fun t ht => ht.woken (woken_notifyWaiters t))
    i k d

theorem Filed.register (i : ReqId) (senderClosed : Bool) (driver : Driver)
    (hk : r'.key = k) (hsub : ∀ c ∈ r'.phase.conns, c = s.conns.length) :
    Filed ({ s with
      connections := Function.update s.connections k (some (s.entries k ++ [s.conns.length]))
      conns := s.conns ++ [H1PooledConnection.new k senderClosed driver] }.move i r') := by
  have hold : ∀ {c : ConnId} {x : H1PooledConnection}, s.conns[c]? = some x →
      (s.conns ++ [H1PooledConnection.new k senderClosed driver])[c]? = some x := by
    intro c x hx
    rw [getElem?_append_left (lt_length_of_getElem? hx)]
    exact hx
  have hnew : (s.conns ++ [H1PooledConnection.new k senderClosed driver])[s.conns.length]? =
      some (H1PooledConnection.new k senderClosed driver) := by simp
  refine ⟨fun k' c hc => ?_, fun c x hx hopen => ?_, fun j q hq c hc => ?_⟩
  · have hc : c ∈ if k' = k then s.entries k ++ [s.conns.length] else s.entries k' := by
      have := entries_update s k k' (some (s.entries k ++ [s.conns.length]))
      exact this ▸ hc
    split at hc
    · next hkk =>
      subst hkk
      rcases mem_append.mp hc with hc | hc
      · obtain ⟨x, hx, hxk⟩ := h.entry k' c hc
        exact ⟨x, hold hx, hxk⟩
      · rw [mem_singleton.mp hc]
        exact ⟨_, hnew, rfl⟩
    · obtain ⟨x, hx, hxk⟩ := h.entry k' c hc
      exact ⟨x, hold hx, hxk⟩
  · show c ∈ Pool.entries { s with connections := Function.update s.connections k _ } x.key
    rw [entries_update]
    rcases getElem?_append_cases hx with ⟨rfl, rfl⟩ | hx
    · simp [H1PooledConnection.new]
    · have hm := h.unclosed c x hx hopen
      split
      · next hkk => exact mem_append_left _ (hkk ▸ hm)
      · exact hm
  · rcases getElem?_set_cases hq with ⟨-, rfl⟩ | ⟨-, hq⟩
    · exact ⟨_, hsub c hc ▸ hnew, hk.symm⟩
    · obtain ⟨x, hx, hxk⟩ := h.held j q hq c hc
      exact ⟨x, hold hx, hxk⟩

theorem Filed.unlock (c : ConnId) : Filed (s.modifyConn c fun x => { x with locked := false }) := by
  have hget : ∀ {d : ConnId} {x : H1PooledConnection}, s.conns[d]? = some x →
      ∃ x', (s.modifyConn c fun x => { x with locked := false }).conns[d]? = some x' ∧
        x'.key = x.key := by
    intro d x hx
    refine ⟨if c = d then { x with locked := false } else x, ?_, by split <;> rfl⟩
    show (s.conns.modify c _)[d]? = _
    rw [getElem?_modify, hx]
    rfl
  refine ⟨fun k d hd => ?_, fun d x' hx' hopen => ?_, fun j q hq d hd => ?_⟩
  · obtain ⟨x, hx, hk⟩ := h.entry k d hd
    obtain ⟨x', hx', hk'⟩ := hget hx
    exact ⟨x', hx', hk'.trans hk⟩
  · have hx' : (s.conns.modify c _)[d]? = some x' := hx'
    rw [getElem?_modify] at hx'
    obtain ⟨x, hx, rfl⟩ := map_eq_some_iff.mp hx'
    split at hopen <;> split <;> exact h.unclosed d x hx hopen
  · obtain ⟨x, hx, hk⟩ := h.held j q hq d hd
    obtain ⟨x', hx', hk'⟩ := hget hx
    exact ⟨x', hx', hk'.trans hk⟩

theorem Filed.transition {a : Act} (hl : Linked s) (hr : s.reqs[i]? = some r)
    (ht : Transition s i r a s') : Filed s' := by
  -- `sub` covers the moves that keep the connections of the phase or drop some of them
  have sub : ∀ {t : Pool} {q : Request}, t.connections = s.connections → t.conns = s.conns →
      t.reqs = s.reqs → q.key = r.key → (∀ c ∈ q.phase.conns, c ∈ r.phase.conns) →
      Filed (t.move i q) := by
    intro t q hc hx hreqs hk hsub
    exact (h.congr hc hx hreqs).move_sub (hreqs ▸ hr) hk hsub
  have clear : ∀ {t : Pool} {q : Request}, t.connections = s.connections → t.conns = s.conns →
      t.reqs = s.reqs → q.key = r.key → q.phase.conns = [] → Filed (t.move i q) := by
    intro t q hc hx hreqs hk hq
    exact sub hc hx hreqs hk fun c hm => by simp [hq] at hm
  have after : ∀ {t : Pool} {q : Request}, Purge s t → q.key = r.key →
      (∀ c ∈ q.phase.conns, c ∈ r.phase.conns) → Filed (t.move i q) := by
    intro t q hp hk hsub
    exact (h.purge hp).move_sub (hp.reqs ▸ hr) hk hsub
  cases ht with
  | @scan entries _ _ hc =>
    have hs : Filed { s with writer := some i } := h.congr rfl rfl rfl
    refine hs.move fun c hm => h.entry r.key c ?_
    simpa [Pool.entries, hc, goto, Phase.conns] using hm
  | wait | dialFirst | dialGrowth | queue | takePermit | park | resume | waitSent | dialFailed
  | cancelIdle | cancelParked => exact clear rfl rfl rfl rfl rfl
  | retained => exact h.move fun c hm => h.entry r.key c hm
  | retain hph =>
    refine after (Purge.retain s r.key _) rfl fun c hm => ?_
    rw [hph]
    exact mem_cons_of_mem _ hm
  | removeKey _ he =>
    have hs : Filed { s with writer := none } := h.congr rfl rfl rfl
    exact Filed.move_sub (hs.purge (Purge.removeKey he)) hr rfl
      fun c hm => absurd hm not_mem_nil
  | @acquire c todo x hph =>
    have hp : Filed ({ s with writer := none } : Pool) := h.congr rfl rfl rfl
    refine Filed.move_sub (hp.purge (Purge.tryAcquire _ c)) hr rfl fun d hd => ?_
    rw [hph, mem_singleton.mp hd]
    exact mem_cons_self
  | @busy c todo x hph =>
    refine after (Purge.tryAcquire s c) rfl fun d hd => ?_
    rw [hph]
    exact mem_cons_of_mem _ hd
  | @waitClosed dialler =>
    have hp : Filed (s.removePendingEntryIfCurrent r.key dialler) := h.dropGuard dialler r.key .first
    exact Filed.move_sub (r := r) hp (by simpa using hr) rfl
      fun c hm => absurd hm not_mem_nil
  | register => exact h.register i _ _ rfl fun c hc => mem_singleton.mp hc
  | announce hph =>
    refine Filed.woken ?_ (woken_notifyWaiters _)
    exact sub rfl rfl rfl rfl (hph ▸ fun c hc => hc)
  | probed hph => exact sub rfl rfl rfl rfl (hph ▸ fun c hc => hc)
  | @acquireNew d c x hph | @unavailable d c x hph =>
    exact after (Purge.tryAcquire s c) rfl (hph ▸ fun c hc => hc)
  | @evictNew d c hph =>
    obtain ⟨t, ht, he⟩ := evictIfSame_eq (s.move i (r.goto (.returning d .none))) r.key c
    rw [he]
    refine Filed.woken (Filed.purge ?_ ht) (woken_notifyWaiters _)
    exact clear rfl rfl rfl rfl rfl
  | returnLease hph =>
    refine Filed.dropGuard ?_ i _ _
    exact sub rfl rfl rfl rfl (hph ▸ fun c hc => hc)
  | returnError | cancelDial | cancelEvict =>
    refine Filed.dropGuard ?_ i _ _
    exact clear rfl rfl rfl rfl rfl
  | cancelWoken hph =>
    refine Filed.woken ?_ (hl.woken_move hr (by simp [hph]) (by simp [decided]))
    exact clear rfl rfl rfl rfl rfl
  | closeLeased => exact h.purge (Purge.closeLeased s _)
  | dropLease hph =>
    refine Filed.woken ?_ (hl.woken_move hr (by simp [hph]) (by simp [goto]))
    exact sub rfl rfl rfl rfl (hph ▸ fun c hc => hc)
  | @unlock c hph => exact Filed.move_sub (h.unlock c) hr rfl fun d hd => absurd hd not_mem_nil

theorem Filed.step {e : Event} (hl : Linked s) (hs : s.step e = some s') : Filed s' := by
  cases stepped_of_step hs with
  | arrive key =>
    refine ⟨h.entry, h.unclosed, fun j q hq => ?_⟩
    rcases getElem?_append_cases hq with ⟨-, rfl⟩ | hq
    · exact forall_mem_nil _
    · exact h.held j q hq
  | act hr ht => exact h.transition hl hr ht
  | purge hp => exact h.purge hp
  | evict hp => exact (h.purge hp).woken (woken_notifyWaiters _)

end

theorem Filed.new : Filed Pool.new :=
  ⟨fun _ _ h => absurd h not_mem_nil, fun _ _ h => (nomatch h), fun _ _ h => (nomatch h)⟩

def upstreamKey : UpstreamKey := ⟨"http", "upstream", 80⟩

def dialled (i : ReqId) : List Event :=
  [.act i (.register false .running), .act i .announce, .act i (.acquireNew false),
    .act i .dropGuards]

def firstLease : List Event :=
  [.getOrConnect upstreamKey, .act 0 .lock] ++ dialled 0

/-- The request `i` arrives at a key with one entry, finds it busy and starts a growth dial. -/
def growing (i : ReqId) : List Event :=
  [.getOrConnect upstreamKey, .act i .lock, .act i (.retainNext false), .act i (.retainNext false),
    .act i .tryNext, .act i .tryNext]

end Pool

end AiProxy.Upstream
