import AiProxy.Upstream.Proofs.PoolProofs

/-!
# The connection cap

`h1_connecting` counts the growth dials whose guard is alive, and the owner of a first dial is
registered in `pending` (`Guarded`). So entries and growth dials stay within the cap; a first dial is
within the cap too as long as it runs alone (`Capped`). An eviction can empty a key while its growth
dials are in flight; the next request then starts a first dial that nobody counts.
-/

namespace AiProxy.Upstream

open Function List Population

def Phase.growthGuard : Phase → Bool
  | .dialing .growth | .announcing .growth _ | .acquiring .growth _ | .evicting .growth _
  | .returning .growth _ => true
  | _ => false

theorem Phase.growthGuard_of_isGrowthDial (ph : Phase) (h : ph.isGrowthDial = true) :
    ph.growthGuard = true := by
  cases ph with
  | dialing d =>
    cases d with
    | first => cases h
    | growth => rfl
  | _ => cases h

theorem Phase.isGrowthDial_of_isDialing {ph : Phase} (h : ph.isDialing = false) :
    ph.isGrowthDial = false := by
  cases ph with
  | dialing d => cases h
  | _ => rfl

namespace Pool

open Phase

variable {s : Pool} {i : ReqId} {r r' : Request} {k : UpstreamKey}
variable {t s' : Pool}

/-! ## The guards of the dials -/

structure Guarded (s : Pool) : Prop where
  guards : ∀ k, s.h1Connecting k = s.tally k growthGuard
  owner : ∀ (i : ReqId) (r : Request), s.reqs[i]? = some r → r.phase = .dialing .first →
    s.pending r.key = some i ∧ r.chan = .unsent

theorem Guarded.congr (h : Guarded s) (hp : t.pending = s.pending)
    (hc : t.h1Connecting = s.h1Connecting) (hr : t.reqs = s.reqs) : Guarded t := by
  refine ⟨fun k => ?_, ?_⟩
  · rw [hc, h.guards k, tally_congr hr]
  · rw [hp, hr]
    exact h.owner

theorem Guarded.purge (h : Guarded s) (hp : Purge s t) : Guarded t :=
  h.congr hp.pending hp.h1Connecting hp.reqs

theorem Guarded.woken (h : Guarded s) (hw : Woken s t) : Guarded t := by
  refine ⟨fun k => ?_, fun j q' hq' hph => ?_⟩
  · rw [hw.h1Connecting, hw.tally k _ rfl fun _ => rfl]
    exact h.guards k
  · rw [hw.pending]
    obtain ⟨q, hq, rfl | ⟨-, w, rfl⟩⟩ := hw.reqs j q' hq'
    · exact h.owner j q' hq hph
    · cases hph

theorem Guarded.removePendingEntryIfCurrent (h : Guarded s) {marker : ReqId}
    (hm : ∀ q, s.reqs[marker]? = some q → q.phase ≠ .dialing .first ∨ q.chan ≠ .unsent) :
    Guarded (s.removePendingEntryIfCurrent k marker) := by
  unfold Pool.removePendingEntryIfCurrent
  split
  case isFalse => exact h
  case isTrue hcur =>
    refine ⟨h.guards, fun j q hq hph => ?_⟩
    obtain ⟨hown, hchan⟩ := h.owner j q hq hph
    refine ⟨?_, hchan⟩
    show update s.pending k none q.key = some j
    have hk : q.key ≠ k := by
      rintro rfl
      obtain rfl : j = marker := by
        rw [hcur] at hown
        exact (Option.some.inj hown).symm
      rcases hm q hq with h1 | h1
      · exact h1 hph
      · exact h1 hchan
    rw [update_of_ne hk]
    exact hown

section

variable (h : Guarded s) (hr : s.reqs[i]? = some r) (hk : r'.key = r.key)

include h hr hk

theorem Guarded.move
    (hg : r'.phase.growthGuard = r.phase.growthGuard) (hf : r'.phase ≠ .dialing .first) :
    Guarded (s.move i r') := by
  refine ⟨fun k => ?_, fun j q hq hph => ?_⟩
  · rw [tally_move_same hr hk hg]
    exact h.guards k
  · rcases getElem?_set_cases hq with ⟨-, rfl⟩ | ⟨-, hq⟩
    · exact absurd hph hf
    · exact h.owner j q hq hph

theorem Guarded.dropGuard {d : Dial} (hg : r.phase.growthGuard = decide (d = .growth))
    (hg' : r'.phase.growthGuard = false) (hf : r'.phase ≠ .dialing .first) :
    Guarded ((s.move i r').dropGuard i r.key d) := by
  cases d with
  | first =>
    have hm : Guarded (s.move i r') := h.move hr hk (by rw [hg, hg']; rfl) hf
    refine hm.removePendingEntryIfCurrent fun q hq => .inl ?_
    rw [show (s.move i r').reqs[i]? = some r' from getElem?_set_self hr] at hq
    exact Option.some.inj hq ▸ hf
  | growth =>
    refine Guarded.woken ?_ (woken_notifyWaiters _)
    refine ⟨fun k => ?_, fun j q hq hph => ?_⟩
    · show update s.h1Connecting r.key (s.h1Connecting r.key - 1) k =
        (s.move i r').tally k growthGuard
      by_cases hkk : k = r.key
      · subst hkk
        have ht := tally_move hr hk r.key growthGuard
        rw [hg, hg'] at ht
        rw [update_self, h.guards]
        simp only [decide_true, Bool.and_self, Bool.toNat_true, Bool.and_false,
          Bool.toNat_false] at ht
        omega
      · rw [update_of_ne hkk, h.guards, tally_move_of_ne hr hk (Ne.symm hkk)]
    · rcases getElem?_set_cases hq with ⟨-, rfl⟩ | ⟨-, hq⟩
      · exact absurd hph hf
      · exact h.owner j q hq hph

theorem Guarded.dialFirst (hg : r.phase.growthGuard = false) (hp : s.pending r.key = none)
    (hph : r'.phase = .dialing .first) (hc : r'.chan = .unsent) :
    Guarded ({ s with pending := update s.pending r.key (some i) }.move i r') := by
  refine ⟨fun k => ?_, fun j q hq hq' => ?_⟩
  · refine (h.guards k).trans (Eq.symm ?_)
    exact tally_move_same (s := s) hr hk (by rw [hg, hph]; rfl)
  · show update s.pending r.key (some i) q.key = some j ∧ _
    rcases getElem?_set_cases hq with ⟨rfl, rfl⟩ | ⟨-, hq⟩
    · rw [hk, update_self]
      exact ⟨rfl, hc⟩
    · obtain ⟨hown, hchan⟩ := h.owner j q hq hq'
      have hne : q.key ≠ r.key := by
        intro he
        rw [he, hp] at hown
        cases hown
      rw [update_of_ne hne]
      exact ⟨hown, hchan⟩

theorem Guarded.dialGrowth (hg : r.phase.growthGuard = false) (hph : r'.phase = .dialing .growth) :
    Guarded ({ s with
      h1Connecting := update s.h1Connecting r.key (s.h1Connecting r.key + 1) }.move i
        r') := by
  refine ⟨fun k => ?_, fun j q hq hq' => ?_⟩
  · show update s.h1Connecting r.key (s.h1Connecting r.key + 1) k =
      (s.move i r').tally k growthGuard
    by_cases hkk : k = r.key
    · subst hkk
      have ht := tally_move hr hk r.key growthGuard
      rw [hg, hph] at ht
      rw [h.guards]
      simpa [growthGuard] using ht.symm
    · rw [update_of_ne hkk, h.guards, tally_move_of_ne hr hk (Ne.symm hkk)]
  · rcases getElem?_set_cases hq with ⟨-, rfl⟩ | ⟨-, hq⟩
    · rw [hph] at hq'
      cases hq'
    · exact h.owner j q hq hq'

end

theorem Guarded.transition {a : Act} (h : Guarded s) (hl : Linked s) (hr : s.reqs[i]? = some r)
    (ht : Transition s i r a s') : Guarded s' := by
  have quiet : ∀ {t : Pool} {q : Request}, t.pending = s.pending →
      t.h1Connecting = s.h1Connecting → t.reqs = s.reqs → q.key = r.key →
      q.phase.growthGuard = r.phase.growthGuard → q.phase ≠ .dialing .first →
      Guarded (t.move i q) := by
    intro t q hp hc hreqs hk hg hf
    exact (h.congr hp hc hreqs).move (hreqs ▸ hr) hk hg hf
  have leave : ∀ {q : Request} (d : Dial), r.phase.growthGuard = decide (d = .growth) →
      q.key = r.key → q.phase.growthGuard = false → q.phase ≠ .dialing .first →
      Guarded ((s.move i q).dropGuard i r.key d) := by
    intro q d hg hk hg' hf
    exact h.dropGuard hr hk hg hg' hf
  cases ht with
  | scan hph | wait hph | retained hph | retain hph | removeKey hph | queue hph | acquire hph
  | busy hph | takePermit hph | park hph | resume hph | waitSent hph | cancelParked hph | unlock hph =>
    exact quiet rfl rfl rfl rfl (by rw [hph]; rfl) (by rintro ⟨⟩)
  | dialFirst hph _ _ hp => exact h.dialFirst hr rfl (by rw [hph]; rfl) hp rfl rfl
  | dialGrowth hph =>
    have hs : Guarded { s with writer := none } := h.congr rfl rfl rfl
    exact hs.dialGrowth hr rfl (by rw [hph]; rfl) rfl
  | @waitClosed dialler d hph hd hc =>
    have hg : Guarded (s.removePendingEntryIfCurrent r.key dialler) := by
      refine h.removePendingEntryIfCurrent fun q hq => .inr ?_
      rw [hd] at hq
      rw [← Option.some.inj hq, hc]
      rintro ⟨⟩
    refine Guarded.move (r := r) hg (by simpa using hr) rfl (by rw [hph]; rfl) (by rintro ⟨⟩)
  | @dialFailed d hph | @register d _ _ hph | @probed d c hph | @acquireNew d c x hph
  | @unavailable d c x hph =>
    exact quiet rfl rfl rfl rfl (by rw [hph]; cases d <;> rfl) (by rintro ⟨⟩)
  | @announce d c hph =>
    refine Guarded.woken ?_ (woken_notifyWaiters _)
    exact quiet rfl rfl rfl rfl (by rw [hph]; cases d <;> rfl) (by rintro ⟨⟩)
  | @evictNew d c hph =>
    obtain ⟨t, ht, he⟩ := evictIfSame_eq (s.move i (r.goto (.returning d .none))) r.key c
    rw [he]
    refine Guarded.woken (Guarded.purge ?_ ht) (woken_notifyWaiters _)
    exact quiet rfl rfl rfl rfl (by rw [hph]; cases d <;> rfl) (by rintro ⟨⟩)
  | @returnLease d c hph | @returnError d hph | @cancelDial d hph | @cancelEvict d c hph =>
    exact leave d (by rw [hph]; cases d <;> rfl) rfl rfl (by rintro ⟨⟩)
  | cancelIdle hph =>
    refine quiet rfl rfl rfl rfl ?_ (by rintro ⟨⟩)
    rcases hph with hph | ⟨dialler, hph⟩ | hph <;> rw [hph] <;> rfl
  | cancelWoken hph =>
    refine Guarded.woken ?_ (hl.woken_move hr (by simp [hph]) (by simp [Request.decided]))
    exact quiet rfl rfl rfl rfl (by rw [hph]; rfl) (by rintro ⟨⟩)
  | closeLeased => exact h.purge (Purge.closeLeased s _)
  | dropLease hph =>
    refine Guarded.woken ?_ (hl.woken_move hr (by simp [hph]) (by simp [Request.goto]))
    exact quiet rfl rfl rfl rfl (by rw [hph]; rfl) (by rintro ⟨⟩)

theorem Guarded.step {e : Event} (h : Guarded s) (hl : Linked s)
    (hs : s.step e = some s') : Guarded s' := by
  cases stepped_of_step hs with
  | arrive key =>
    refine ⟨fun k => ?_, fun j q hq hph => ?_⟩
    · rw [tally_arrive s key k rfl]
      exact h.guards k
    · rcases getElem?_append_cases hq with ⟨-, rfl⟩ | hq
      · cases hph
      · exact h.owner j q hq hph
  | act hr ht => exact h.transition hl hr ht
  | purge hp => exact h.purge hp
  | evict hp => exact (h.purge hp).woken (woken_notifyWaiters _)

theorem Guarded.new : Guarded Pool.new := ⟨fun _ => rfl, fun _ _ h => nomatch h⟩

/-- Throughout every run the waiters are the parked requests, connections are filed under their keys
and the growth dials are counted exactly. -/
theorem consistent_of_run (es : List Event) (s : Pool)
    (h : Run.exec Pool.step Pool.new es = some s) : Linked s ∧ Filed s ∧ Guarded s := by
  refine Run.exec_invariant (P := fun s => Linked s ∧ Filed s ∧ Guarded s) ?_ h
    ⟨Linked.new, Filed.new, Guarded.new⟩
  rintro t e t' ⟨hl, hf, hg⟩ ht
  exact ⟨hl.step ht, hf.step hl ht, hg.step hl ht⟩

theorem consistent_of_run_growing : ∃ s,
    Run.exec Pool.step Pool.new (firstLease ++ growing 1) = some s ∧ Guarded s := by
  have hrun : (Run.exec Pool.step Pool.new (firstLease ++ growing 1)).any fun _ => true := by
    decide +kernel
  obtain ⟨s, hs, -⟩ := Run.exists_of_exec_any hrun
  exact ⟨s, hs, (consistent_of_run _ s hs).2.2⟩

/-! ## Entries and dials -/

/-- A first dial runs alone, and the entries of a key together with its growth dials are within the
cap. -/
structure Capped (s : Pool) : Prop where
  alone : ∀ (i : ReqId) (r : Request), s.reqs[i]? = some r → r.phase = .dialing .first →
    s.connections r.key = none ∧ s.tally r.key isGrowthDial = 0
  cap : ∀ k, (s.entries k).length + s.tally k isGrowthDial ≤ maxH1ConnectionsPerKey

theorem Capped.congr (h : Capped s) (hc : t.connections = s.connections)
    (hr : t.reqs = s.reqs) : Capped t := by
  refine ⟨?_, fun k => ?_⟩
  · unfold tally
    rw [hc, hr]
    exact h.alone
  · unfold entries tally
    rw [hc, hr]
    exact h.cap k

theorem Capped.purge (h : Capped s) (hp : Purge s t) : Capped t := by
  have ht := tally_congr hp.reqs
  refine ⟨fun j q hq hph => ?_, fun k => ?_⟩
  · obtain ⟨hc, hg⟩ := h.alone j q (hp.reqs ▸ hq) hph
    exact ⟨hp.absent _ hc, (ht _ _).trans hg⟩
  · have hlen := (hp.entries k).length_le
    have hcap := h.cap k
    rw [ht]
    omega

theorem Capped.woken (h : Capped s) (hw : Woken s t) : Capped t := by
  have ht : ∀ k, t.tally k isGrowthDial = s.tally k isGrowthDial :=
    fun k => hw.tally k _ rfl fun _ => rfl
  refine ⟨fun j q' hq' hph => ?_, fun k => ?_⟩
  · obtain ⟨q, hq, rfl | ⟨-, w, rfl⟩⟩ := hw.reqs j q' hq'
    · rw [hw.connections, ht]
      exact h.alone j q' hq hph
    · cases hph
  · rw [hw.entries, ht]
    exact h.cap k

theorem Capped.dropGuard (h : Capped s) (i : ReqId) (k : UpstreamKey) (d : Dial) :
    Capped (s.dropGuard i k d) :=
  dropGuard_rule (fun _ hc _ hr _ => h.congr hc hr) (fun t ht => ht.woken (woken_notifyWaiters t)) i k d

section

variable (h : Capped s) (hr : s.reqs[i]? = some r) (hk : r'.key = r.key)

include h hr hk

theorem Capped.move (hd : r'.phase.isDialing = false) : Capped (s.move i r') := by
  have hg : r'.phase.isGrowthDial = false := isGrowthDial_of_isDialing hd
  have ht : ∀ k, (s.move i r').tally k isGrowthDial ≤ s.tally k isGrowthDial := by
    intro k
    have := tally_move hr hk k isGrowthDial
    rw [hg] at this
    simp only [Bool.and_false, Bool.toNat_false] at this
    omega
  refine ⟨fun j q hq hph => ?_, fun k => ?_⟩
  · rcases getElem?_set_cases hq with ⟨-, rfl⟩ | ⟨-, hq⟩
    · rw [hph] at hd
      cases hd
    · obtain ⟨hc, hz⟩ := h.alone j q hq hph
      exact ⟨hc, Nat.le_zero.mp (hz ▸ ht q.key)⟩
  · have hcap := h.cap k
    have := ht k
    have he : (s.move i r').entries k = s.entries k := rfl
    rw [he]
    omega

theorem Capped.dialFirst (hd : r.phase.isDialing = false) (hph : r'.phase = .dialing .first)
    (hc : s.connections r.key = none) (hg : s.tally r.key isGrowthDial = 0) :
    Capped (s.move i r') := by
  have hg0 : r.phase.isGrowthDial = false := isGrowthDial_of_isDialing hd
  have ht : ∀ k, (s.move i r').tally k isGrowthDial = s.tally k isGrowthDial :=
    fun k => tally_move_same hr hk (by rw [hg0, hph]; rfl)
  refine ⟨fun j q hq hq' => ?_, fun k => ?_⟩
  · rw [ht]
    rcases getElem?_set_cases hq with ⟨-, rfl⟩ | ⟨-, hq⟩
    · rw [hk]
      exact ⟨hc, hg⟩
    · exact h.alone j q hq hq'
  · rw [ht]
    exact h.cap k

theorem Capped.dialGrowth (hG : Guarded s) (hd : r.phase.isDialing = false)
    (hph : r'.phase = .dialing .growth) (he : s.entries r.key ≠ [])
    (hlt : (s.entries r.key).length + s.h1Connecting r.key < maxH1ConnectionsPerKey) :
    Capped (s.move i r') := by
  have hg0 : r.phase.isGrowthDial = false := isGrowthDial_of_isDialing hd
  refine ⟨fun j q hq hq' => ?_, fun k => ?_⟩
  · rcases getElem?_set_cases hq with ⟨-, rfl⟩ | ⟨-, hq⟩
    · rw [hph] at hq'
      cases hq'
    · obtain ⟨hc, hz⟩ := h.alone j q hq hq'
      have hne : r.key ≠ q.key := by
        intro hkk
        rw [← hkk] at hc
        exact he (by simp [entries, hc])
      exact ⟨hc, (tally_move_of_ne hr hk hne).trans hz⟩
  · show (s.entries k).length + _ ≤ _
    by_cases hkk : r.key = k
    · subst hkk
      have hm := tally_move hr hk r.key isGrowthDial
      rw [hph] at hm
      have hle : s.tally r.key isGrowthDial ≤ s.tally r.key growthGuard :=
        tally_mono growthGuard_of_isGrowthDial
      rw [hG.guards] at hlt
      simp [isGrowthDial] at hm
      omega
    · rw [tally_move_of_ne hr hk hkk]
      exact h.cap k

theorem Capped.register (hG : Guarded s) {d : Dial} (hph : r.phase = .dialing d)
    (hd : r'.phase.isDialing = false) {conns : List H1PooledConnection} {c : ConnId} :
    Capped ({ s with
      connections := update s.connections r.key (some (s.entries r.key ++ [c]))
      conns := conns }.move i r') := by
  have hg : r'.phase.isGrowthDial = false := isGrowthDial_of_isDialing hd
  refine ⟨fun j q hq hq' => ?_, fun k => ?_⟩
  · rcases getElem?_set_cases hq with ⟨-, rfl⟩ | ⟨hij, hq⟩
    · rw [hq'] at hd
      cases hd
    · obtain ⟨hc, hz⟩ := h.alone j q hq hq'
      have hne : q.key ≠ r.key := by
        intro hkk
        cases d with
        | first =>
          have h1 := (hG.owner i r hr hph).1
          have h2 := (hG.owner j q hq hq').1
          rw [hkk, h1] at h2
          exact hij (Option.some.inj h2).symm
        | growth =>
          have hone : 1 ≤ s.tally r.key isGrowthDial := one_le_tally hr (by rw [hph]; rfl)
          rw [hkk] at hz
          omega
      refine ⟨?_, ?_⟩
      · show update s.connections r.key _ q.key = none
        rw [update_of_ne hne]
        exact hc
      · exact (tally_move_of_ne (s := s) hr hk hne.symm).trans hz
  · have he : Pool.entries ({ s with
        connections := update s.connections r.key (some (s.entries r.key ++ [c]))
        conns := conns }.move i r') k = if k = r.key then s.entries r.key ++ [c] else s.entries k :=
      entries_update s r.key k (some (s.entries r.key ++ [c]))
    rw [he]
    show _ + (s.move i r').tally k isGrowthDial ≤ _
    have hcap := h.cap k
    by_cases hkk : k = r.key
    · subst hkk
      have hm := tally_move hr hk r.key isGrowthDial
      rw [hg] at hm
      simp only [if_true, length_append, length_cons, length_nil]
      cases d with
      | first =>
        -- a first dial is alone, so the new entry is the only one
        obtain ⟨hc, hz⟩ := h.alone i r hr hph
        have hnil : s.entries r.key = [] := by simp [entries, hc]
        simp only [Bool.and_false, Bool.toNat_false] at hm
        rw [hnil]
        simp only [length_nil, maxH1ConnectionsPerKey]
        omega
      | growth =>
        rw [hph] at hm
        simp [isGrowthDial] at hm
        omega
    · rw [if_neg hkk, tally_move_of_ne hr hk (Ne.symm hkk)]
      exact hcap

end

theorem Capped.transition {a : Act} (h : Capped s) (hG : Guarded s) (hl : Linked s)
    (hr : s.reqs[i]? = some r) (ha : s.FirstDialAlone (.act i a)) (ht : Transition s i r a s') :
    Capped s' := by
  have quiet : ∀ {t : Pool} {q : Request}, t.connections = s.connections → t.reqs = s.reqs →
      q.key = r.key → q.phase.isDialing = false → Capped (t.move i q) := by
    intro t q hc hreqs hk hd
    exact (h.congr hc hreqs).move (hreqs ▸ hr) hk hd
  have after : ∀ {t : Pool} {q : Request}, Purge s t → q.key = r.key →
      q.phase.isDialing = false → Capped (t.move i q) := by
    intro t q hp hk hd
    exact (h.purge hp).move (hp.reqs ▸ hr) hk hd
  cases ht with
  | scan | wait | retained | queue | takePermit | park | resume | waitSent | dialFailed | probed
  | cancelIdle | cancelParked | unlock => exact quiet rfl rfl rfl rfl
  | dialFirst hph _ hc hp =>
    have hs : Capped { s with pending := update s.pending r.key (some i) } := h.congr rfl rfl
    exact hs.dialFirst hr rfl (by rw [hph]; rfl) rfl hc (ha r hr hc hp)
  | retain => exact after (Purge.retain s r.key _) rfl rfl
  | removeKey _ he =>
    have hs : Capped { s with writer := none } := h.congr rfl rfl
    exact Capped.move (hs.purge (Purge.removeKey he)) hr rfl rfl
  | dialGrowth hph he hlt =>
    have hs : Capped (s.move i (r.decided (.dialing .growth))) :=
      h.dialGrowth hr rfl hG (by rw [hph]; rfl) rfl he hlt
    exact hs.congr rfl rfl
  | @acquire c todo x =>
    have hs : Capped { s with writer := none } := h.congr rfl rfl
    exact Capped.move (hs.purge (Purge.tryAcquire _ c)) hr rfl rfl
  | @busy c todo x | @acquireNew d c | @unavailable d c =>
    exact after (Purge.tryAcquire s c) rfl rfl
  | @waitClosed dialler =>
    have hs : Capped (s.removePendingEntryIfCurrent r.key dialler) :=
      h.dropGuard dialler r.key .first
    exact Capped.move (r := r) hs (by simpa using hr) rfl rfl
  | register hph => exact h.register hr (by rfl) hG hph (by rfl)
  | announce =>
    refine Capped.woken ?_ (woken_notifyWaiters _)
    exact quiet rfl rfl rfl rfl
  | @evictNew d c =>
    obtain ⟨t, ht, he⟩ := evictIfSame_eq (s.move i (r.goto (.returning d .none))) r.key c
    rw [he]
    refine Capped.woken (Capped.purge ?_ ht) (woken_notifyWaiters _)
    exact quiet rfl rfl rfl rfl
  | returnLease | returnError | cancelDial | cancelEvict =>
    refine Capped.dropGuard ?_ i _ _
    exact quiet rfl rfl rfl rfl
  | cancelWoken hph =>
    refine Capped.woken ?_ (hl.woken_move hr (by simp [hph]) (by simp [Request.decided]))
    exact quiet rfl rfl rfl rfl
  | closeLeased => exact h.purge (Purge.closeLeased s _)
  | dropLease hph =>
    refine Capped.woken ?_ (hl.woken_move hr (by simp [hph]) (by simp [Request.goto]))
    exact quiet rfl rfl rfl rfl

theorem Capped.step {e : Event} (h : Capped s) (hG : Guarded s) (hl : Linked s)
    (ha : s.FirstDialAlone e) (hs : s.step e = some s') : Capped s' := by
  cases stepped_of_step hs with
  | arrive key =>
    refine ⟨fun j q hq hph => ?_, fun k => ?_⟩
    · rw [tally_arrive s key _ rfl]
      rcases getElem?_append_cases hq with ⟨-, rfl⟩ | hq
      · cases hph
      · exact h.alone j q hq hph
    · rw [tally_arrive s key k rfl]
      exact h.cap k
  | act hr ht => exact h.transition hG hl hr ha ht
  | purge hp => exact h.purge hp
  | evict hp => exact (h.purge hp).woken (woken_notifyWaiters _)

theorem Capped.new : Capped Pool.new := ⟨fun _ _ h => (nomatch h), fun _ => Nat.zero_le _⟩

theorem Capped.capRespected (h : Capped s) (hG : Guarded s) : s.CapRespected := by
  intro k
  have hlive : s.liveConnections k ≤ (s.entries k).length := countP_le_length
  by_cases hf : ∃ (i : ReqId) (r : Request), s.reqs[i]? = some r ∧ r.key = k ∧
      r.phase = .dialing .first
  · obtain ⟨i, r, hr, rfl, hph⟩ := hf
    obtain ⟨hc, hz⟩ := h.alone i r hr hph
    have hnil : s.entries r.key = [] := by simp [entries, hc]
    -- every dial of the key is a first dial, and they all own the same registration
    have hone : s.dialsInFlight r.key ≤ 1 := by
      refine countP_le_one i fun j q hq hp => ?_
      simp only [Bool.and_eq_true, decide_eq_true_eq] at hp
      have hgrow := countP_eq_zero_iff.mp hz j q hq
      simp only [hp.1, decide_true, Bool.true_and] at hgrow
      have hqph : q.phase = .dialing .first := by
        cases hq' : q.phase with
        | dialing d =>
          cases d with
          | first => rfl
          | growth => simp [hq', isGrowthDial] at hgrow
        | _ => simp [hq', isDialing] at hp
      have h1 := (hG.owner i r hr hph).1
      have h2 := (hG.owner j q hq hqph).1
      rw [hp.1, h1] at h2
      exact (Option.some.inj h2).symm
    rw [hnil] at hlive
    simp only [length_nil] at hlive
    simp only [maxH1ConnectionsPerKey]
    omega
  · have hle : s.dialsInFlight k ≤ s.tally k isGrowthDial := by
      refine countP_mono_left fun q hq hp => ?_
      simp only [Bool.and_eq_true, decide_eq_true_eq] at hp ⊢
      refine ⟨hp.1, ?_⟩
      cases hq' : q.phase with
      | dialing d =>
        cases d with
        | first =>
          obtain ⟨j, hj⟩ := mem_iff_getElem?.mp hq
          exact absurd ⟨j, q, hj, hp.1, hq'⟩ hf
        | growth => rfl
      | _ => simp [hq', isDialing] at hp
    have hcap := h.cap k
    omega

/-- In every state reached by a run in which no first dial of a key starts while growth dials of the
key are in flight, the live connections and the dials of every key are within the cap. -/
theorem cap_respected (es : List Event) (s : Pool)
    (h : Run.exec Pool.step Pool.new es = some s)
    (hG : Run.Along Pool.step Pool.FirstDialAlone Pool.new es) : s.CapRespected := by
  have hinv : Linked s ∧ Guarded s ∧ Capped s := by
    refine Run.exec_invariant_along (P := fun s => Linked s ∧ Guarded s ∧ Capped s) ?_ h hG
      ⟨Linked.new, Guarded.new, Capped.new⟩
    rintro t e t' ⟨hl, hg, hc⟩ ha ht
    exact ⟨hl.step ht, hg.step hl ht, hc.step hg hl ha ht⟩
  exact hinv.2.2.capRespected hinv.2.1

/-- Request 0 leases the only connection and three requests start growth dials. The connection is
evicted, so request 4 starts a first dial. Request 1 registers its connection, and request 5 finds
room for a growth dial. -/
def emptiedKeyRun : List Event :=
  firstLease ++ growing 1 ++ growing 2 ++ growing 3 ++
  [.evictH1Connection upstreamKey 0, .getOrConnect upstreamKey, .act 4 .lock] ++ dialled 1 ++
  growing 5

/-- One live connection and four dials for one key. -/
theorem emptied_key_exceeds_cap :
    ∃ s, Run.exec Pool.step Pool.new emptiedKeyRun = some s ∧
      s.liveConnections upstreamKey = 1 ∧ s.dialsInFlight upstreamKey = 4 ∧
      ¬ s.CapRespected := by
  have hrun : (Run.exec Pool.step Pool.new emptiedKeyRun).any fun s =>
      s.liveConnections upstreamKey == 1 && s.dialsInFlight upstreamKey == 4 := by decide +kernel
  obtain ⟨s, hs, hcount⟩ := Run.exists_of_exec_any hrun
  simp only [Bool.and_eq_true, beq_iff_eq] at hcount
  refine ⟨s, hs, hcount.1, hcount.2, fun hcap => ?_⟩
  have := hcap upstreamKey
  rw [hcount.1, hcount.2] at this
  exact absurd this (by decide)

/-- Up to the eviction the run keeps its first dials alone. -/
theorem cap_respected_growing : ∃ s,
    Run.exec Pool.step Pool.new (firstLease ++ growing 1) = some s ∧
    s.dialsInFlight upstreamKey = 1 ∧ s.CapRespected := by
  have hrun : (Run.exec Pool.step Pool.new (firstLease ++ growing 1)).any fun s =>
        s.dialsInFlight upstreamKey == 1 := by decide +kernel
  obtain ⟨s, hs, hcount⟩ := Run.exists_of_exec_any hrun
  exact ⟨s, hs, by simpa using hcount, cap_respected _ s hs (by decide +kernel)⟩

end Pool

end AiProxy.Upstream
