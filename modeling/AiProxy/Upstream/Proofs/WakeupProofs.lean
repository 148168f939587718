import AiProxy.Upstream.Proofs.PoolProofs

/-!
# Wakeups

As long as checks and hand-overs of a key do not overlap, a request that parks has seen every connection
of its key busy (`Orderly`), and from then on every connection that becomes free is paired with a
request that was woken and has not checked yet (`Owed`).
-/

namespace AiProxy.Upstream

open List Population

def Phase.isReleasing : Phase → Bool
  | .releasing _ => true
  | _ => false

theorem Phase.inRelease_of_isReleasing (ph : Phase) (h : ph.isReleasing = true) :
    ph.inRelease = true := by
  cases ph with
  | releasing c => rfl
  | _ => cases h

theorem Phase.inRelease_of_isAnnouncing (ph : Phase) (h : ph.isAnnouncing = true) :
    ph.inRelease = true := by
  cases ph with
  | announcing d c => rfl
  | _ => cases h

variable {ph : Phase}

theorem Phase.not_inRelease_of_inCheck (h : ph.inCheck = true) : ph.inRelease = false := by
  cases ph with
  | retaining todo | trying todo | queueing => rfl
  | _ => cases h

theorem Phase.eq_parked (h : ph.isParked = true) : ph = .parked := by
  cases ph with
  | parked => rfl
  | _ => cases h

theorem Phase.not_isReleasing (h : ph.inRelease = false) : ph.isReleasing = false := by
  cases hm : ph.isReleasing with
  | false => rfl
  | true =>
    rw [Phase.inRelease_of_isReleasing _ hm] at h
    exact h

namespace Pool

open Phase

variable {s : Pool} {i : ReqId} {r r' : Request} {k : UpstreamKey}
variable {t : Pool} {c : ConnId} {x : H1PooledConnection}

def wakeups (s : Pool) (k : UpstreamKey) : Nat :=
  s.reqs.countP fun r => decide (r.key = k) && r.wakeup

def freeCount (s : Pool) (k : UpstreamKey) : Nat :=
  s.conns.countP fun x => decide (x.key = k) && x.free

theorem wakeups_move (hr : s.reqs[i]? = some r) (hk : r'.key = r.key) (k : UpstreamKey) :
    (s.move i r').wakeups k + (decide (r.key = k) && r.wakeup).toNat =
      s.wakeups k + (decide (r.key = k) && r'.wakeup).toNat := by
  have h := countP_set_add (p := fun q : Request => decide (q.key = k) && q.wakeup) hr r'
  rw [hk] at h
  exact h

theorem tally_wake (hr : s.reqs[i]? = some r) (hp : r.phase = .parked) (hw : r.wakeup = false) :
    (s.move i (r.wake .one)).tally r.key isParked + 1 = s.tally r.key isParked ∧
    (s.move i (r.wake .one)).tally r.key isAnnouncing = s.tally r.key isAnnouncing ∧
    (s.move i (r.wake .one)).tally r.key isReleasing = s.tally r.key isReleasing ∧
    (s.move i (r.wake .one)).wakeups r.key = s.wakeups r.key + 1 := by
  refine ⟨?_, tally_move_same hr rfl (by rw [hp]; rfl), tally_move_same hr rfl (by rw [hp]; rfl), ?_⟩
  · have h := tally_move hr (show (r.wake .one).key = r.key from rfl) r.key isParked
    rw [hp] at h
    simpa [Request.wake, isParked] using h
  · have h := wakeups_move hr (show (r.wake .one).key = r.key from rfl) r.key
    rw [hw] at h
    simpa [Request.wake] using h

theorem freeCount_purge (hp : Purge s t) (k : UpstreamKey) : t.freeCount k ≤ s.freeCount k := by
  refine countP_le_of_forall hp.length fun c x x' hx hx' hfree => ?_
  obtain ⟨y, hy, hkey, hf, -⟩ := hp.before hx'
  rw [hx] at hy
  obtain rfl := Option.some.inj hy
  simp only [Bool.and_eq_true, decide_eq_true_eq] at hfree ⊢
  exact ⟨hkey ▸ hfree.1, hf hfree.2⟩

theorem freeCount_eq_zero_iff : s.freeCount k = 0 ↔
    ∀ (c : ConnId) (x : H1PooledConnection), s.conns[c]? = some x → x.key = k → x.free = false := by
  unfold freeCount
  rw [countP_eq_zero_iff]
  simp

theorem freeCount_modifyConn (hx : s.conns[c]? = some x)
    {f : H1PooledConnection → H1PooledConnection} (hkey : (f x).key = x.key) (k : UpstreamKey) :
    (s.modifyConn c f).freeCount k + (decide (x.key = k) && x.free).toNat =
      s.freeCount k + (decide (x.key = k) && (f x).free).toNat := by
  have h := countP_set_add (p := fun x : H1PooledConnection => decide (x.key = k) && x.free) hx (f x)
  have hset : s.conns.modify c f = s.conns.set c (f x) := by
    rw [modify_eq_set_getElem?, hx]
    rfl
  show (s.conns.modify c f).countP _ + _ = _
  rw [hset, h, hkey]
  rfl

theorem tally_eq_zero_of_forall {p : Phase → Bool}
    (h : ∀ q ∈ s.reqs, p q.phase = true → q.key ≠ k) : s.tally k p = 0 := by
  refine countP_eq_zero.mpr fun q hq hp => ?_
  simp only [Bool.and_eq_true, decide_eq_true_eq] at hp
  exact h q hq hp.2 hp.1

/-! ## Checks and hand-overs -/

/-- Every free connection of the key is still to be tried. -/
def FreeIn (s : Pool) (k : UpstreamKey) (todo : List ConnId) : Prop :=
  ∀ (c : ConnId) (x : H1PooledConnection), s.conns[c]? = some x → x.key = k → x.free = true → c ∈ todo

structure Orderly (s : Pool) : Prop where
  apart : ∀ k, 0 < s.tally k inCheck → s.tally k inRelease = 0
  tried : ∀ (i : ReqId) (r : Request) (todo : List ConnId), s.reqs[i]? = some r →
    r.phase = .trying todo → s.FreeIn r.key todo
  queued : ∀ (i : ReqId) (r : Request), s.reqs[i]? = some r → r.phase = .queueing →
    s.freeCount r.key = 0
  asleep : ∀ (i : ReqId) (r : Request), s.reqs[i]? = some r → r.phase = .parked → r.wakeup = false

/-- A parked request is owed a wakeup for each connection that is free or about to be. -/
def Owed (s : Pool) (k : UpstreamKey) : Prop :=
  0 < s.tally k isParked → 0 < s.tally k isAnnouncing ∨
    s.freeCount k + s.tally k isReleasing ≤ s.wakeups k

structure Served (s : Pool) : Prop extends Orderly s where
  owed : ∀ k, Owed s k

theorem Orderly.calm (h : Orderly s) (hr : s.reqs[i]? = some r) (hc : r.phase.inCheck = true) :
    s.tally r.key inRelease = 0 ∧ s.tally r.key isReleasing = 0 ∧
      s.tally r.key isAnnouncing = 0 := by
  have hz := h.apart r.key (one_le_tally hr hc)
  have h1 : s.tally r.key isReleasing ≤ s.tally r.key inRelease :=
    tally_mono inRelease_of_isReleasing
  have h2 : s.tally r.key isAnnouncing ≤ s.tally r.key inRelease :=
    tally_mono inRelease_of_isAnnouncing
  exact ⟨hz, by omega, by omega⟩

theorem Orderly.unchecked (h : Orderly s) (hr : s.reqs[i]? = some r)
    (hc : r.phase.inRelease = true) : s.tally r.key inCheck = 0 := by
  by_contra hne
  have hz := h.apart r.key (Nat.pos_of_ne_zero hne)
  have hone := one_le_tally hr hc
  omega

theorem Orderly.tried_all (h : Orderly s) (hr : s.reqs[i]? = some r)
    (hph : r.phase = .trying []) : s.freeCount r.key = 0 := by
  refine freeCount_eq_zero_iff.mpr fun c x hx hk => ?_
  by_contra hf
  exact absurd (h.tried i r [] hr hph c x hx hk (by simpa using hf)) not_mem_nil

theorem Filed.mem_of_free (h : Filed s) (hx : s.conns[c]? = some x)
    (hf : x.free = true) : c ∈ s.entries x.key := by
  refine h.unclosed c x hx ?_
  cases hc : x.closed with
  | false => rfl
  | true => simp [H1PooledConnection.free, H1PooledConnection.live, hc] at hf

theorem Filed.freeCount_eq_zero (h : Filed s) (he : s.entries k = []) : s.freeCount k = 0 := by
  refine freeCount_eq_zero_iff.mpr fun c x hx hk => ?_
  by_contra hf
  have hm := h.mem_of_free hx (by simpa using hf)
  rw [hk, he] at hm
  exact absurd hm not_mem_nil

theorem Orderly.congr (h : Orderly s) (hx : t.conns = s.conns) (hr : t.reqs = s.reqs) :
    Orderly t := by
  have ht := tally_congr hr
  have hf : ∀ k, t.freeCount k = s.freeCount k := fun k => by unfold freeCount; rw [hx]
  refine ⟨fun k => ?_, ?_, fun j q hq hph => ?_, fun j q hq => h.asleep j q (hr ▸ hq)⟩
  · rw [ht, ht]
    exact h.apart k
  · unfold FreeIn
    rw [hx, hr]
    exact h.tried
  · rw [hf]
    exact h.queued j q (hr ▸ hq) hph

theorem Orderly.purge (h : Orderly s) (hp : Purge s t) : Orderly t := by
  have ht := tally_congr hp.reqs
  refine ⟨fun k => ?_, fun j q todo hq hph c x' hx' hk hf => ?_, fun j q hq hph => ?_,
    fun j q hq => h.asleep j q (hp.reqs ▸ hq)⟩
  · rw [ht, ht]
    exact h.apart k
  · obtain ⟨x, hx, hkey, hfree, -⟩ := hp.before hx'
    exact h.tried j q todo (hp.reqs ▸ hq) hph c x hx (hkey ▸ hk) (hfree hf)
  · have hz := h.queued j q (hp.reqs ▸ hq) hph
    have := freeCount_purge hp q.key
    omega

theorem Orderly.woken (h : Orderly s) (hw : Woken s t) : Orderly t := by
  have ht : ∀ k, t.tally k inCheck = s.tally k inCheck ∧
      t.tally k inRelease = s.tally k inRelease := fun k =>
    ⟨hw.tally k _ rfl fun _ => rfl, hw.tally k _ rfl fun _ => rfl⟩
  have hf : ∀ k, t.freeCount k = s.freeCount k := fun k => by unfold freeCount; rw [hw.conns]
  refine ⟨fun k => ?_, fun j q' todo hq' hph => ?_, fun j q' hq' hph => ?_, fun j q' hq' hph => ?_⟩
  · rw [(ht k).1, (ht k).2]
    exact h.apart k
  · rw [FreeIn, hw.conns]
    obtain ⟨q, hq, rfl | ⟨-, w, rfl⟩⟩ := hw.reqs j q' hq'
    · exact h.tried j q' todo hq hph
    · cases hph
  · rw [hf]
    obtain ⟨q, hq, rfl | ⟨-, w, rfl⟩⟩ := hw.reqs j q' hq'
    · exact h.queued j q' hq hph
    · cases hph
  · obtain ⟨q, hq, rfl | ⟨-, w, rfl⟩⟩ := hw.reqs j q' hq'
    · exact h.asleep j q' hq hph
    · cases hph

/-- A request moves on: it may begin a check when no connection of its key is handed over, and begin
to hand one over when nobody checks. -/
theorem Orderly.move (h : Orderly s) (hr : s.reqs[i]? = some r) (hk : r'.key = r.key)
    (hcheck : r'.phase.inCheck = true →
      r.phase.inCheck = true ∨ s.tally r.key inRelease = 0)
    (hrel : r'.phase.inRelease = true →
      r.phase.inRelease = true ∨ s.tally r.key inCheck = 0)
    (htry : ∀ todo, r'.phase = .trying todo → s.FreeIn r.key todo)
    (hqueue : r'.phase = .queueing → s.freeCount r.key = 0)
    (hsleep : r'.phase = .parked → r'.wakeup = false) : Orderly (s.move i r') := by
  refine ⟨fun k hpos => ?_, fun j q todo hq hph => ?_, fun j q hq hph => ?_, fun j q hq hph => ?_⟩
  · by_cases hkk : r.key = k
    · subst hkk
      have hc := tally_move hr hk r.key inCheck
      have hl := tally_move hr hk r.key inRelease
      simp only [decide_true, Bool.true_and] at hc hl
      cases hc' : r'.phase.inCheck with
      | true =>
        rw [not_inRelease_of_inCheck hc'] at hl
        have hz : s.tally r.key inRelease = 0 := by
          rcases hcheck hc' with hrc | hz
          · exact (h.calm hr hrc).1
          · exact hz
        simp only [Bool.toNat_false] at hl
        omega
      | false =>
        rw [hc'] at hc
        simp only [Bool.toNat_false] at hc
        have hz := h.apart r.key (by omega)
        cases hl' : r'.phase.inRelease with
        | false =>
          rw [hl'] at hl
          simp only [Bool.toNat_false] at hl
          omega
        | true =>
          rcases hrel hl' with hrr | hz'
          · have := one_le_tally hr hrr
            omega
          · omega
    · rw [tally_move_of_ne hr hk hkk] at hpos ⊢
      exact h.apart k hpos
  · rcases getElem?_set_cases hq with ⟨-, rfl⟩ | ⟨-, hq⟩
    · rw [hk]
      exact htry todo hph
    · exact h.tried j q todo hq hph
  · rcases getElem?_set_cases hq with ⟨-, rfl⟩ | ⟨-, hq⟩
    · rw [hk]
      exact hqueue hph
    · exact h.queued j q hq hph
  · rcases getElem?_set_cases hq with ⟨-, rfl⟩ | ⟨-, hq⟩
    · exact hsleep hph
    · exact h.asleep j q hq hph

/-! ## What is owed -/

theorem Owed.congr (h : Owed s k) (hx : t.conns = s.conns) (hr : t.reqs = s.reqs) : Owed t k := by
  unfold Owed tally freeCount wakeups
  rw [hx, hr]
  exact h

theorem Served.congr (h : Served s) (hx : t.conns = s.conns) (hr : t.reqs = s.reqs) : Served t :=
  ⟨h.toOrderly.congr hx hr, fun k => (h.owed k).congr hx hr⟩

theorem Served.purge (h : Served s) (hp : Purge s t) : Served t := by
  refine ⟨h.toOrderly.purge hp, fun k hpos => ?_⟩
  have ht := tally_congr hp.reqs k
  have hw : t.wakeups k = s.wakeups k := by unfold wakeups; rw [hp.reqs]
  have hf := freeCount_purge hp k
  rw [ht] at hpos
  rw [ht, ht]
  have := h.owed k hpos
  omega

theorem Orderly.notifyWaiters (h : Orderly s) : Served s.notifyWaiters := by
  refine ⟨h.woken (woken_notifyWaiters s), fun k hpos => ?_⟩
  rw [tally_parked_notifyWaiters] at hpos
  exact absurd hpos (Nat.lt_irrefl 0)

theorem owed_of_none (hf : t.freeCount k = 0) (hm : t.tally k isReleasing = 0) : Owed t k := by
  intro _
  omega

section

variable (hr : s.reqs[i]? = some r) (hk : r'.key = r.key)

include hr hk

theorem Owed.move_other (h : Owed s k) (hne : r.key ≠ k) : Owed (s.move i r') k := by
  have hw : (s.move i r').wakeups k = s.wakeups k := by
    have := wakeups_move hr hk k
    simpa [hne] using this
  intro hpos
  rw [tally_move_of_ne hr hk hne] at hpos
  rw [tally_move_of_ne hr hk hne, tally_move_of_ne hr hk hne, hw]
  exact h hpos

theorem Owed.move_quiet (h : Owed s r.key)
    (hp : r'.phase.isParked = false) (ha : r.phase.isAnnouncing = false)
    (hm : r'.phase.isReleasing = false) (hw : r.wakeup = true → r'.wakeup = true) :
    Owed (s.move i r') r.key := by
  have hpt := tally_move hr hk r.key isParked
  have hat := tally_move hr hk r.key isAnnouncing
  have hmt := tally_move hr hk r.key isReleasing
  have hwt := wakeups_move hr hk r.key
  simp only [decide_true, Bool.true_and, hp, ha, hm, Bool.toNat_false] at hpt hat hmt hwt
  have hle : r.wakeup.toNat ≤ r'.wakeup.toNat := by
    cases hrw : r.wakeup with
    | false => exact Nat.zero_le _
    | true => exact Nat.le_of_eq (congrArg Bool.toNat (hw hrw).symm)
  intro hpos
  have hf : (s.move i r').freeCount r.key = s.freeCount r.key := rfl
  have := h (by omega)
  omega

theorem Owed.move_decided (hf : s.freeCount r.key = 0) (hrel : s.tally r.key isReleasing = 0)
    (hm : r'.phase.isReleasing = false) : Owed (s.move i r') r.key := by
  have hmt := tally_move hr hk r.key isReleasing
  simp only [decide_true, Bool.true_and, hm, Bool.toNat_false] at hmt
  exact owed_of_none hf (by omega)

theorem Served.of_move (hord : Orderly (s.move i r')) (hother : ∀ k, r.key ≠ k → Owed s k)
    (howed : Owed (s.move i r') r.key) : Served (s.move i r') := by
  refine ⟨hord, fun k => ?_⟩
  by_cases hkk : r.key = k
  · exact hkk ▸ howed
  · exact (hother k hkk).move_other hr hk hkk

variable (h : Served s) (hc : r'.phase.inCheck = false) (hl : r'.phase.inRelease = false)

include h hc hl

theorem Served.move_outside (hsleep : r'.phase = .parked → r'.wakeup = false)
    (howed : Owed (s.move i r') r.key) : Served (s.move i r') := by
  refine .of_move hr hk (h.move hr hk (by simp [hc]) (by simp [hl]) ?_ ?_ hsleep)
    (fun k _ => h.owed k) howed
  · intro todo hph
    rw [hph] at hc
    cases hc
  · intro hph
    rw [hph] at hc
    cases hc

theorem Served.move_quiet (hp : r'.phase.isParked = false) (ha : r.phase.isAnnouncing = false)
    (hw : r.wakeup = true → r'.wakeup = true) : Served (s.move i r') :=
  h.move_outside hr hk hc hl (fun hph => by rw [hph] at hp; cases hp)
    ((h.owed r.key).move_quiet hr hk hp ha (not_isReleasing hl) hw)

theorem Served.move_decided (hsleep : r'.phase = .parked → r'.wakeup = false)
    (hf : s.freeCount r.key = 0) (hrel : s.tally r.key isReleasing = 0) :
    Served (s.move i r') :=
  h.move_outside hr hk hc hl hsleep (Owed.move_decided hr hk hf hrel (not_isReleasing hl))

end

theorem Served.dropGuard (h : Served s) (i : ReqId) (k : UpstreamKey) (d : Dial) :
    Served (s.dropGuard i k d) :=
  dropGuard_rule (fun _ _ hx hr _ => h.congr hx hr) (fun _ ht => ht.notifyWaiters) i k d

theorem Served.notifyOne (h : Served s) (hl : Linked s) : Served s.notifyOne := by
  refine ⟨h.woken hl.woken_notifyOne, fun k => ?_⟩
  rcases hl.notifyOne_cases with ⟨-, hreqs, -⟩ | ⟨w, ws, q, -, hq, hqp, hreqs, -⟩
  · exact (h.owed k).congr rfl hreqs
  · have hmove : Owed (s.move w (q.wake .one)) k := by
      by_cases hkk : q.key = k
      · subst hkk
        exact (h.owed q.key).move_quiet hq rfl rfl (by rw [hqp]; rfl) rfl fun _ => rfl
      · exact (h.owed k).move_other hq rfl hkk
    exact hmove.congr rfl hreqs

/-! ## The steps that hand connections over -/

theorem Served.replaceConns (h : Served s) (hquiet : s.tally k inCheck = 0)
    {connections : UpstreamKey → Option (List ConnId)} {conns : List H1PooledConnection}
    (hold : ∀ (c : ConnId) (x : H1PooledConnection), conns[c]? = some x → x.key ≠ k →
      s.conns[c]? = some x)
    (hfree : ∀ k', k ≠ k' →
      ({ s with connections := connections, conns := conns } : Pool).freeCount k' = s.freeCount k') :
    Orderly { s with connections := connections, conns := conns } ∧
      ∀ k', k ≠ k' → Owed { s with connections := connections, conns := conns } k' := by
  have hcheck : ∀ (j : ReqId) (q : Request), s.reqs[j]? = some q → q.phase.inCheck = true →
      k ≠ q.key := by
    intro j q hq hc hkk
    have := one_le_tally hq hc
    rw [← hkk] at this
    omega
  refine ⟨⟨h.apart, fun j q todo hq hqp c y hy hky hf => ?_, fun j q hq hqp => ?_,
    h.asleep⟩, fun k' hne hpos => ?_⟩
  · have hne := hcheck j q hq (by rw [hqp]; rfl)
    exact h.tried j q todo hq hqp c y (hold c y hy (hky ▸ hne.symm)) hky hf
  · rw [hfree q.key (hcheck j q hq (by rw [hqp]; rfl))]
    exact h.queued j q hq hqp
  · rw [hfree k' hne]
    exact h.owed k' hpos

section

variable (h : Served s) (hr : s.reqs[i]? = some r) (hk : r'.key = r.key)

include h hr hk

theorem Served.scan (hrel : s.tally r.key inRelease = 0) {todo : List ConnId}
    (hph : r'.phase = .retaining todo) (ha : r.phase.isAnnouncing = false)
    (hw : r.wakeup = true → r'.wakeup = true) : Served (s.move i r') := by
  refine .of_move hr hk ?_ (fun k _ => h.owed k) ?_
  · exact h.move hr hk (fun _ => .inr hrel) (by simp [hph, inRelease])
      (by simp [hph]) (by simp [hph]) (by simp [hph])
  · exact (h.owed r.key).move_quiet hr hk (by rw [hph]; rfl) ha (by rw [hph]; rfl) hw

theorem Served.check
    (hc : r.phase.inCheck = true) (hc' : r'.phase.inCheck = true) (ha : r.phase.isAnnouncing = false)
    (hw : r.wakeup = true → r'.wakeup = true)
    (htry : ∀ todo, r'.phase = .trying todo → s.FreeIn r.key todo)
    (hqueue : r'.phase = .queueing → s.freeCount r.key = 0) : Served (s.move i r') := by
  have hl := not_inRelease_of_inCheck hc'
  have hp : r'.phase.isParked = false := by
    cases hph : r'.phase <;> first | rfl | (rw [hph] at hc'; cases hc')
  refine .of_move hr hk ?_ (fun k _ => h.owed k) ?_
  · exact h.move hr hk (fun _ => .inl hc) (by simp [hl]) htry hqueue
      (fun hph => by rw [hph] at hp; cases hp)
  · exact (h.owed r.key).move_quiet hr hk hp ha (not_isReleasing hl) hw

theorem Served.queue
    (hc : r.phase.inCheck = true) (hf : s.freeCount r.key = 0) (hph : r'.phase = .queueing) :
    Served (s.move i r') := by
  refine .of_move hr hk ?_ (fun k _ => h.owed k) ?_
  · exact h.move hr hk (fun _ => .inl hc) (by simp [hph, inRelease]) (by simp [hph])
      (fun _ => hf) (by simp [hph])
  · exact Owed.move_decided hr hk hf (h.calm hr hc).2.1 (by rw [hph]; rfl)

theorem Served.acquire
    (hc : r.phase.inCheck = true) (hx : s.conns[c]? = some x) (hxk : x.key = r.key)
    (ha : x.tryAcquire.1 = true) (hph : r'.phase = .leased c) :
    Served ((s.modifyConn c fun x => x.tryAcquire.2).move i r') := by
  have hpurge := Purge.tryAcquire s c
  obtain ⟨hfree, hacq⟩ : x.free = true ∧ x.tryAcquire = (true, { x with locked := true }) := by
    rcases tryAcquire_cases x with hacq | ⟨-, hacq | hacq⟩
    · exact hacq
    · rw [hacq] at ha
      cases ha
    · rw [hacq] at ha
      cases ha
  refine (h.purge hpurge).move_outside hr hk (by rw [hph]; rfl) (by rw [hph]; rfl) (by simp [hph]) ?_
  obtain ⟨-, hrel, hann⟩ := h.calm hr hc
  have hfc := freeCount_modifyConn hx (f := fun x => x.tryAcquire.2) (by rw [hacq]) r.key
  have hlocked : ({ x with locked := true } : H1PooledConnection).free = false := by
    simp [H1PooledConnection.free]
  rw [hacq, hfree, hlocked] at hfc
  simp only [hxk, decide_true, Bool.and_self, Bool.toNat_true, Bool.and_false,
    Bool.toNat_false] at hfc
  have hpt := tally_move hr hk r.key isParked
  have hmt := tally_move hr hk r.key isReleasing
  have hwt := wakeups_move hr hk r.key
  simp only [hph, decide_true, Bool.true_and] at hpt hmt hwt
  intro hpos
  right
  have hpos : 0 < (s.move i r').tally r.key isParked := hpos
  have howed := h.owed r.key (by simp [isParked] at hpt; omega)
  have hle := Bool.toNat_le r.wakeup
  show (s.modifyConn c fun x => x.tryAcquire.2).freeCount r.key +
    (s.move i r').tally r.key isReleasing ≤ (s.move i r').wakeups r.key
  simp only [isReleasing, Bool.toNat_false] at hmt
  omega

theorem Served.park
    (hph : r.phase = .queueing) (hph' : r'.phase = .parked) (hw : r'.wakeup = false) :
    Served (s.move i r') := by
  have hcalm := h.calm hr (by rw [hph]; rfl)
  exact h.move_decided hr hk (by rw [hph']; rfl) (by rw [hph']; rfl) (fun _ => hw)
    (h.queued i r hr hph) hcalm.2.1

theorem Served.register
    (hquiet : s.tally r.key inCheck = 0) {d : Dial} (hph' : r'.phase = .announcing d c)
    {connections : UpstreamKey → Option (List ConnId)} (hx : x.key = r.key) :
    Served ({ s with connections := connections, conns := s.conns ++ [x] }.move i r') := by
  have hfree : ∀ k, r.key ≠ k →
      ({ s with connections := connections, conns := s.conns ++ [x] } : Pool).freeCount k =
        s.freeCount k := by
    intro k hne
    simp [freeCount, hx, hne]
  obtain ⟨hord, howed⟩ := h.replaceConns hquiet (fun c y hy hne => by
    rcases getElem?_append_cases hy with ⟨-, rfl⟩ | hy
    · exact absurd hx hne
    · exact hy) hfree
  refine .of_move hr hk (hord.move hr hk (by simp [hph', inCheck]) (fun _ => .inr hquiet)
    (by simp [hph']) (by simp [hph']) (by simp [hph'])) howed fun _ => .inl ?_
  have hone := one_le_tally (s := s.move i r') (p := isAnnouncing)
    (getElem?_set_self hr) (by rw [hph']; rfl)
  rw [hk] at hone
  exact hone

theorem Served.dropLease (hl : Linked s) (hph : r.phase = .leased c) (hph' : r'.phase = .releasing c)
    (hquiet : s.tally r.key inCheck = 0)
    (hown : ∀ q ∈ s.reqs, q.phase = .parked → q.key = r.key)
    (hw : r'.wakeup = r.wakeup) : Served (s.move i r').notifyOne := by
  have hl' : Linked (s.move i r') := hl.move hr (by simp [hph]) (by simp [hph'])
  have hord : Orderly (s.move i r') :=
    h.move hr hk (by simp [hph', inCheck]) (fun _ => .inr hquiet) (by simp [hph'])
      (by simp [hph']) (by simp [hph'])
  refine ⟨hord.woken hl'.woken_notifyOne, fun k => ?_⟩
  have hpt := tally_move hr hk k isParked
  have hat := tally_move hr hk k isAnnouncing
  have hmt := tally_move hr hk k isReleasing
  have hwt := wakeups_move hr hk k
  rw [hph, hph'] at hpt hat hmt
  rw [hw] at hwt
  rcases hl'.notifyOne_cases with ⟨hnil, hreqs, -⟩ | ⟨w, ws, q, -, hq, hqp, hreqs, -⟩
  · -- nobody is parked
    have hnone : (s.move i r').tally k isParked = 0 := by
      refine countP_eq_zero_iff.mpr fun j q hq => ?_
      cases hp : q.phase.isParked with
      | false => simp
      | true =>
        have := (hl'.parked j).mpr ⟨q, hq, eq_parked hp⟩
        rw [hnil] at this
        exact absurd this not_mem_nil
    have howed : Owed (s.move i r') k := fun hpos => by omega
    exact howed.congr rfl hreqs
  · have hqs : s.reqs[w]? = some q := by
      rcases getElem?_set_cases hq with ⟨-, rfl⟩ | ⟨-, hq⟩
      · rw [hph'] at hqp
        cases hqp
      · exact hq
    have hqk : q.key = r.key := hown q (mem_of_getElem? hqs) hqp
    refine Owed.congr (s := (s.move i r').move w (q.wake .one)) ?_ rfl hreqs
    by_cases hkk : r.key = k
    · subst hkk
      have hqw : q.wakeup = false := h.asleep w q hqs hqp
      obtain ⟨hp', ha', hm', hw'⟩ := tally_wake hq hqp hqw
      rw [hqk] at hp' ha' hm' hw'
      simp only [decide_true, Bool.true_and, isParked, isAnnouncing,
        isReleasing, Bool.toNat_false, Bool.toNat_true] at hpt hat hmt
      intro hpos
      have howed := h.owed r.key (by omega)
      show _ ∨ s.freeCount r.key + _ ≤ _
      omega
    · have hnone : ((s.move i r').move w (q.wake .one)).tally k isParked = 0 := by
        have hkey : (q.wake .one).key = q.key := rfl
        rw [tally_move_of_ne hq hkey (hqk ▸ hkk), tally_move_of_ne hr hk hkk]
        refine tally_eq_zero_of_forall fun q' hq' hp hk' => ?_
        exact hkk ((hown q' hq' (eq_parked hp)).symm.trans hk')
      intro hpos
      omega

theorem Served.unlock (hF : Filed s)
    (hph : r.phase = .releasing c) (hph' : r'.phase = .finished) (hw : r'.wakeup = r.wakeup) :
    Served ((s.modifyConn c fun x => { x with locked := false }).move i r') := by
  obtain ⟨x, hx, hxk⟩ := hF.held i r hr c (by rw [hph]; exact mem_singleton.mpr rfl)
  have hquiet := h.unchecked hr (by rw [hph]; rfl)
  have hfc := freeCount_modifyConn hx (f := fun x => { x with locked := false }) rfl
  have hfree : ∀ k, r.key ≠ k →
      (s.modifyConn c fun x => { x with locked := false }).freeCount k = s.freeCount k := by
    intro k hne
    have := hfc k
    simpa [hxk, hne] using this
  have hothers : Orderly (s.modifyConn c fun x => { x with locked := false }) ∧
      ∀ k, r.key ≠ k → Owed (s.modifyConn c fun x => { x with locked := false }) k := by
    refine h.replaceConns hquiet (fun d y hy hne => ?_) hfree
    rw [getElem?_modify] at hy
    obtain ⟨y₀, hy₀, rfl⟩ := Option.map_eq_some_iff.mp hy
    by_cases hcd : c = d
    · subst hcd
      rw [hx] at hy₀
      obtain rfl := Option.some.inj hy₀
      exact absurd hxk (by simpa using hne)
    · simpa [hcd] using hy₀
  refine .of_move hr hk (hothers.1.move hr hk (by simp [hph', inCheck])
    (by simp [hph', inRelease]) (by simp [hph']) (by simp [hph']) (by simp [hph']))
    hothers.2 fun hpos => ?_
  have hpt := tally_move hr hk r.key isParked
  have hat := tally_move hr hk r.key isAnnouncing
  have hmt := tally_move hr hk r.key isReleasing
  have hwt := wakeups_move hr hk r.key
  rw [hph, hph'] at hpt hat hmt
  rw [hw] at hwt
  simp only [decide_true, Bool.true_and, isParked, isAnnouncing, isReleasing,
    Bool.toNat_false, Bool.toNat_true] at hpt hat hmt
  have hgain := hfc r.key
  have hle := Bool.toNat_le (decide (x.key = r.key) &&
    ({ x with locked := false } : H1PooledConnection).free)
  have hpos : 0 < (s.move i r').tally r.key isParked := hpos
  have howed := h.owed r.key (by omega)
  show 0 < (s.move i r').tally r.key isAnnouncing ∨
    (s.modifyConn c fun x => { x with locked := false }).freeCount r.key +
      (s.move i r').tally r.key isReleasing ≤ (s.move i r').wakeups r.key
  omega

end

theorem Served.transition {s' : Pool} {a : Act} (h : Served s) (hF : Filed s) (hl : Linked s)
    (hr : s.reqs[i]? = some r) (hu : s.Undisturbed (.act i a)) (ht : Transition s i r a s') :
    Served s' := by
  have quiet : ∀ {t : Pool} {q : Request}, t.conns = s.conns → t.reqs = s.reqs → q.key = r.key →
      q.phase.inCheck = false → q.phase.inRelease = false → q.phase.isParked = false →
      r.phase.isAnnouncing = false → (r.wakeup = true → q.wakeup = true) →
      Served (t.move i q) := by
    intro t q hx hreqs hk hc hl' hp ha hw
    exact (h.congr hx hreqs).move_quiet (hreqs ▸ hr) hk hc hl' hp ha hw
  have decided : ∀ {t : Pool} {q : Request}, t.conns = s.conns → t.reqs = s.reqs → q.key = r.key →
      q.phase.inCheck = false → q.phase.inRelease = false → q.phase.isParked = false →
      s.freeCount r.key = 0 → s.tally r.key isReleasing = 0 → Served (t.move i q) := by
    intro t q hx hreqs hk hc hl' hp hf hrel
    have hs : Served (s.move i q) := h.move_decided hr hk hc hl'
      (fun hph => by rw [hph] at hp; cases hp) hf hrel
    refine hs.congr hx ?_
    show t.reqs.set i q = s.reqs.set i q
    rw [hreqs]
  have after : ∀ {t : Pool} {q : Request}, Purge s t → q.key = r.key → q.phase.inCheck = false →
      q.phase.inRelease = false → q.phase.isParked = false → r.phase.isAnnouncing = false →
      (r.wakeup = true → q.wakeup = true) → Served (t.move i q) := by
    intro t q hpg hk hc hl' hp ha hw
    exact (h.purge hpg).move_quiet (hpg.reqs ▸ hr) hk hc hl' hp ha hw
  have calm : s.tally r.key inRelease = 0 → s.tally r.key isReleasing = 0 := by
    have : s.tally r.key isReleasing ≤ s.tally r.key inRelease :=
      tally_mono inRelease_of_isReleasing
    omega
  cases ht with
  | scan hph =>
    have hs : Served { s with writer := some i } := h.congr rfl rfl
    exact hs.scan hr rfl (hu r hr) rfl (by rw [hph]; rfl) id
  | wait hph _ hc | dialFirst hph _ hc =>
    have he : s.entries r.key = [] := by simp [entries, hc]
    exact decided rfl rfl rfl rfl rfl rfl (hF.freeCount_eq_zero he) (calm (hu r hr))
  | retained hph =>
    refine h.check hr rfl (by rw [hph]; rfl) rfl (by rw [hph]; rfl) id ?_ (by rintro ⟨⟩)
    intro todo htodo c x hx hk hf
    obtain rfl := Phase.trying.inj htodo
    exact hk ▸ hF.mem_of_free hx hf
  | @retain expired c todo x hph =>
    have hs := h.purge (Purge.retain s r.key fun d => d != c || x.isAliveAndNotIdle expired)
    exact hs.check hr rfl (by rw [hph]; rfl) rfl (by rw [hph]; rfl) id (by rintro _ ⟨⟩)
      (by rintro ⟨⟩)
  | removeKey hph he | dialGrowth hph =>
    have hcalm := h.calm hr (by rw [hph]; rfl)
    exact decided rfl rfl rfl rfl rfl rfl (h.tried_all hr hph) hcalm.2.1
  | queue hph =>
    have hs : Served { s with writer := none } := h.congr rfl rfl
    exact hs.queue hr rfl (by rw [hph]; rfl) (h.tried_all hr hph) rfl
  | @acquire c todo x hph hx ha =>
    have hs : Served { s with writer := none } := h.congr rfl rfl
    obtain ⟨y, hy, hyk⟩ := hF.held i r hr c (by rw [hph]; exact mem_cons_self)
    rw [hx] at hy
    obtain rfl := Option.some.inj hy
    exact hs.acquire hr (by rfl) (by rw [hph]; rfl) hx hyk ha (by rfl)
  | @busy c todo x hph hx ha =>
    have hpg := Purge.tryAcquire s c
    refine (h.purge hpg).check hr rfl (by rw [hph]; rfl) rfl (by rw [hph]; rfl) id ?_ (by rintro ⟨⟩)
    intro todo' htodo d y hy hk hf
    obtain rfl := Phase.trying.inj htodo
    obtain ⟨y₀, hy₀, hkey, hfree, -⟩ := hpg.before hy
    have hm := h.tried i r (c :: todo) hr hph d y₀ hy₀ (hkey ▸ hk) (hfree hf)
    rcases mem_cons.mp hm with rfl | hm
    · -- the entry that was just tried was not free
      rw [hx] at hy₀
      obtain rfl := Option.some.inj hy₀
      have hxf := hfree hf
      rcases tryAcquire_cases x with ⟨-, hacq⟩ | ⟨hnf, -⟩
      · rw [hacq] at ha
        cases ha
      · rw [hnf] at hxf
        cases hxf
    · exact hm
  | takePermit hph =>
    exact quiet rfl rfl rfl rfl rfl rfl (by rw [hph]; rfl) fun _ => rfl
  | park hph =>
    have hs : Served { s with h1Notify := (s.h1Notify.poll i).2 } := h.congr rfl rfl
    exact hs.park hr rfl hph rfl rfl
  | resume hph | waitSent hph | dialFailed hph | probed hph =>
    exact quiet rfl rfl rfl rfl rfl rfl (by rw [hph]; rfl) id
  | @waitClosed dialler q hph =>
    have hs : Served (s.removePendingEntryIfCurrent r.key dialler) :=
      h.dropGuard dialler r.key .first
    exact hs.move_quiet (r := r) (by simpa using hr) rfl rfl rfl rfl (by rw [hph]; rfl) id
  | register hph => exact h.register hr (by rfl) (hu r hr) (by rfl) (by rfl)
  | @announce d c hph =>
    refine Orderly.notifyWaiters ?_
    exact h.move hr rfl (by rintro ⟨⟩) (fun _ => .inl (by rw [hph]; rfl))
      (by rintro _ ⟨⟩) (by rintro ⟨⟩) (by rintro ⟨⟩)
  | @acquireNew d c x hph | @unavailable d c x hph =>
    exact after (Purge.tryAcquire s c) rfl rfl rfl rfl (by rw [hph]; rfl) id
  | @evictNew d c hph =>
    obtain ⟨t, ht, he⟩ := evictIfSame_eq (s.move i (r.goto (.returning d .none))) r.key c
    rw [he]
    have hs : Served (s.move i (r.goto (.returning d .none))) :=
      quiet rfl rfl rfl rfl rfl rfl (by rw [hph]; rfl) id
    exact (hs.purge ht).notifyWaiters
  | returnLease hph | returnError hph | cancelDial hph | cancelEvict hph =>
    refine Served.dropGuard ?_ i _ _
    exact quiet rfl rfl rfl rfl rfl rfl (by rw [hph]; rfl) id
  | cancelIdle hph =>
    refine quiet rfl rfl rfl rfl rfl rfl ?_ fun hw => absurd hw (by simp [hu r hr])
    rcases hph with hph | ⟨dialler, hph⟩ | hph <;> rw [hph] <;> rfl
  | cancelParked hph =>
    exact quiet rfl rfl rfl rfl rfl rfl (by rw [hph]; rfl)
      fun hw => absurd hw (by simp [hu r hr])
  | cancelWoken hph =>
    have hl' : Linked (s.move i (r.decided .finished)) :=
      hl.move hr (by simp [hph]) (by simp [Request.decided])
    refine Served.notifyOne ?_ hl'
    exact quiet rfl rfl rfl rfl rfl rfl (by rw [hph]; rfl)
      fun hw => absurd hw (by simp [hu r hr])
  | closeLeased => exact h.purge (Purge.closeLeased s _)
  | dropLease hph =>
    obtain ⟨hquiet, hown⟩ := hu r hr
    exact h.dropLease hr rfl hl hph rfl hquiet hown rfl
  | unlock hph => exact h.unlock hr (by rfl) hF hph (by rfl) (by rfl)

theorem Served.step {s' : Pool} {e : Event} (h : Served s) (hF : Filed s) (hl : Linked s)
    (hu : s.Undisturbed e) (hs : s.step e = some s') : Served s' := by
  cases stepped_of_step hs with
  | arrive key =>
    have hw : ∀ k, ({ s with reqs := s.reqs ++ [Request.new key] } : Pool).wakeups k =
        s.wakeups k := by
      simp [wakeups, Request.new]
    refine ⟨⟨fun k => ?_, fun j q todo hq hph => ?_, fun j q hq hph => ?_, fun j q hq hph => ?_⟩,
      fun k => ?_⟩
    · rw [tally_arrive s key k rfl, tally_arrive s key k rfl]
      exact h.apart k
    · rcases getElem?_append_cases hq with ⟨-, rfl⟩ | hq
      · cases hph
      · exact h.tried j q todo hq hph
    · rcases getElem?_append_cases hq with ⟨-, rfl⟩ | hq
      · cases hph
      · exact h.queued j q hq hph
    · rcases getElem?_append_cases hq with ⟨-, rfl⟩ | hq
      · cases hph
      · exact h.asleep j q hq hph
    · unfold Owed
      rw [tally_arrive s key k rfl, tally_arrive s key k rfl, tally_arrive s key k rfl, hw k]
      exact h.owed k
  | act hr ht => exact h.transition hF hl hr hu ht
  | purge hp => exact h.purge hp
  | evict hp => exact (h.purge hp).notifyWaiters

theorem Served.new : Served Pool.new :=
  ⟨⟨fun _ h => absurd h (Nat.lt_irrefl 0), fun _ _ _ h => (nomatch h), fun _ _ h => (nomatch h),
    fun _ _ h => (nomatch h)⟩, fun _ h => absurd h (Nat.lt_irrefl 0)⟩

theorem Served.noLostWakeup (h : Served s) (hF : Filed s) : s.NoLostWakeup := by
  rintro k ⟨r, hr, rfl, hph⟩ - hpending ⟨c, hc, hfree⟩
  obtain ⟨i, hi⟩ := mem_iff_getElem?.mp hr
  have hparked : 1 ≤ s.tally r.key isParked := one_le_tally hi (by rw [hph]; rfl)
  have hann : s.tally r.key isAnnouncing = 0 := by
    refine tally_eq_zero_of_forall fun q hq hp hk => hpending ⟨q, hq, hk, .inr hp⟩
  have hwake : s.wakeups r.key = 0 := by
    refine countP_eq_zero.mpr fun q hq hp => ?_
    simp only [Bool.and_eq_true, decide_eq_true_eq] at hp
    exact hpending ⟨q, hq, hp.1, .inl hp.2⟩
  obtain ⟨x, hx, hxk⟩ := hF.entry r.key c hc
  rw [hx] at hfree
  have hzero : s.freeCount r.key = 0 := by
    have := h.owed r.key hparked
    omega
  have := freeCount_eq_zero_iff.mp hzero c x hx hxk
  simp [this] at hfree

/-- In every state reached by a run without disturbances, nobody is parked for a key that has a free
connection unless a wakeup is on its way. -/
theorem no_lost_wakeup (es : List Event) (s : Pool)
    (h : Run.exec Pool.step Pool.new es = some s)
    (hu : Run.Along Pool.step Pool.Undisturbed Pool.new es) : s.NoLostWakeup := by
  have hinv : Linked s ∧ Filed s ∧ Served s := by
    refine Run.exec_invariant_along (P := fun s => Linked s ∧ Filed s ∧ Served s) ?_ h hu
      ⟨Linked.new, Filed.new, Served.new⟩
    rintro t e t' ⟨hl, hf, hs⟩ hu ht
    exact ⟨hl.step ht, hf.step hl ht, hs.step hf hl hu ht⟩
  exact hinv.2.2.noLostWakeup hinv.2.1

def fourLeases : List Event :=
  firstLease ++ growing 1 ++ growing 2 ++ growing 3 ++ dialled 1 ++ dialled 2 ++ dialled 3

def parking (i : ReqId) : List Event :=
  .act i .lock :: List.replicate 5 (.act i (.retainNext false)) ++
    List.replicate 5 (.act i .tryNext) ++ [.act i .poll]

/-- Request 4 is parked when request 0 drops its lease. The notification wakes it, it checks while
the sender is still locked, and parks again before the sender is unlocked. -/
def earlyNotifyRun : List Event :=
  fourLeases ++ [.getOrConnect upstreamKey] ++ parking 4 ++
  [.act 0 .dropLease, .act 4 .resume] ++ parking 4 ++ [.act 0 .unlock]

/-- The request stays parked, with no permit and no notification under way, next to a free
connection. -/
theorem parked_beside_free_connection :
    ∃ s, Run.exec Pool.step Pool.new earlyNotifyRun = some s ∧
      s.reqs.map Request.phase = [.finished, .leased 1, .leased 2, .leased 3, .parked] ∧
      s.h1Notify.permit = false ∧ ¬ s.NotificationPending upstreamKey ∧
      s.FreeConnection upstreamKey ∧ ¬ s.NoLostWakeup := by
  have hrun : (Run.exec Pool.step Pool.new earlyNotifyRun).any fun s =>
      decide (s.reqs.map Request.phase = [.finished, .leased 1, .leased 2, .leased 3, .parked]) &&
      decide (∃ r ∈ s.reqs, r.key = upstreamKey ∧ r.phase = .parked) &&
      decide (s.h1Notify.permit = false) && decide (¬ s.NotificationPending upstreamKey) &&
      decide (s.FreeConnection upstreamKey) := by decide +kernel
  obtain ⟨s, hs, hlast⟩ := Run.exists_of_exec_any hrun
  simp only [Bool.and_eq_true, decide_eq_true_eq] at hlast
  obtain ⟨⟨⟨⟨hphases, hparked⟩, hpermit⟩, hpending⟩, hfree⟩ := hlast
  exact ⟨s, hs, hphases, hpermit, hpending, hfree,
    fun h => h upstreamKey hparked hpermit hpending hfree⟩

/-- Request 4 and request 5 are parked when request 0 drops its lease and unlocks; request 4 takes
the connection. -/
def handedOverRun : List Event :=
  fourLeases ++ [.getOrConnect upstreamKey] ++ parking 4 ++ [.getOrConnect upstreamKey] ++
  parking 5 ++ [.act 0 .dropLease, .act 0 .unlock, .act 4 .resume, .act 4 .lock] ++
  List.replicate 5 (.act 4 (.retainNext false)) ++ [.act 4 .tryNext]

theorem no_lost_wakeup_handed_over :
    ∃ s, Run.exec Pool.step Pool.new handedOverRun = some s ∧
      s.reqs.map Request.phase =
        [.finished, .leased 1, .leased 2, .leased 3, .leased 0, .parked] ∧
      s.NoLostWakeup := by
  have hrun : (Run.exec Pool.step Pool.new handedOverRun).any fun s =>
      decide (s.reqs.map Request.phase =
        [.finished, .leased 1, .leased 2, .leased 3, .leased 0, .parked]) := by decide +kernel
  obtain ⟨s, hs, hlast⟩ := Run.exists_of_exec_any hrun
  exact ⟨s, hs, of_decide_eq_true hlast, no_lost_wakeup _ s hs (by decide +kernel)⟩

end Pool

end AiProxy.Upstream
