import AiProxy.Mcp.Proofs.HitProofs

/-!
# The sink finds what a search in the whole text finds

The sink keeps the end of what was written. What it has recorded are the first hits of the whole text,
and the hits that remain are those from `next_search_from` on; a hit is recorded once its surroundings
have been written, and what is dropped from the buffer is never needed again.
-/

namespace AiProxy.Mcp

open List
open MatchSink (ceilBoundary new)

variable {N : Type}

def hitJson (p : Platform N) (text : Text) (contextBytes : Nat) (f : Found) : Json.Value N :=
  jsonMatch p f.start (sliceBytes text (floorFrom text (f.start - contextBytes))
    (ceilFrom text (byteLen text) (min (saturatingAdd f.stop contextBytes) (byteLen text)))) f.text

theorem textMatchesFrom_eq (p : Platform N) (text : Text) (contextBytes : Nat) :
    ∀ (fs : List Found) (done : List (Json.Value N)), done.length ≤ maxTextQueryHits →
      textMatchesFrom p text contextBytes done fs =
        (done ++ (fs.take (maxTextQueryHits - done.length)).map (hitJson p text contextBytes),
          decide (maxTextQueryHits < done.length + fs.length)) := by
  intro fs
  induction fs with
  | nil =>
    intro done hdone
    rw [textMatchesFrom, take_nil, map_nil, append_nil, length_nil, add_zero,
      decide_eq_false (not_lt.mpr hdone)]
  | cons f fs ih =>
    intro done hdone
    rw [textMatchesFrom]
    by_cases hfull : maxTextQueryHits ≤ done.length
    · have hzero : maxTextQueryHits - done.length = 0 := by omega
      have hmore : maxTextQueryHits < done.length + (f :: fs).length := by
        rw [length_cons]
        omega
      rw [if_pos hfull, hzero, take_zero, map_nil, append_nil, decide_eq_true hmore]
    · obtain ⟨k, hk⟩ : ∃ k, maxTextQueryHits - done.length = k + 1 :=
        ⟨maxTextQueryHits - done.length - 1, by omega⟩
      rw [if_neg hfull]
      dsimp only
      rw [← hitJson.eq_def p text contextBytes f, ih _ (by rw [length_append]; simp; omega),
        length_append, length_singleton, hk, take_succ_cons, map_cons,
        append_assoc, singleton_append, length_cons]
      have hk' : maxTextQueryHits - (done.length + 1) = k := by omega
      rw [hk', add_assoc, add_comm 1]

/-- The text is what was dropped, what is kept of the part that was searched, what is yet to be
searched, and what is yet to be written. -/
structure MatchSink.Window (text : Text) (s : MatchSink N) (dropped kept ahead unwritten : Text) :
    Prop where
  text_eq : text = dropped ++ (kept ++ ahead) ++ unwritten
  buffer : s.buffer = kept ++ ahead
  bufferStart : s.bufferStart = byteLen dropped
  nextSearchFrom : s.nextSearchFrom = byteLen dropped + byteLen kept
  totalLen : s.totalLen = byteLen dropped + byteLen (kept ++ ahead)
  context : dropped = [] ∨ s.contextBytes ≤ byteLen kept

/-- A query with bounds that hold for every query and text. -/
structure Bounds (q : List (Char → Bool)) (text : Text) (context maxMatch : Nat) : Prop where
  query : q ≠ []
  matchBytes : 4 * q.length ≤ maxMatch
  slack : maxMatch ≤ matchSlackBytes
  context_lt : context < 2 ^ 32
  text_lt : byteLen text < 2 ^ 63

/-- The sink on the way through a text of which this part is yet to be written. -/
structure MatchSink.Tracks (p : Platform N) (q : List (Char → Bool)) (text : Text)
    (context maxMatch : Nat) (s : MatchSink N) (unwritten : Text) : Prop where
  matcher : s.matcher = (Regex.all (q.map .char)).pattern
  contextBytes : s.contextBytes = context
  maxMatchBytes : s.maxMatchBytes = maxMatch
  unlimited : s.limited = false → ∃ dropped kept ahead,
    s.Window text dropped kept ahead unwritten ∧ ∃ done,
      hits q 0 text = done ++ hits q s.nextSearchFrom (ahead ++ unwritten) ∧
      done.length ≤ maxTextQueryHits ∧ s.found = done.map (hitJson p text context)
  limited : s.limited = true → maxTextQueryHits < (hits q 0 text).length ∧
    s.found = ((hits q 0 text).take maxTextQueryHits).map (hitJson p text context)

variable {n : Nat}

namespace MatchSink

variable {p : Platform N} {q : List (Char → Bool)} {text : Text} {context maxMatch : Nat}
  {s : MatchSink N} {dropped kept ahead unwritten : Text}

variable {flush : Bool} {searchFrom advanceTo : Nat} {fs : List Found}
  {result : MatchSink N × Nat × Bool}

namespace Window

section

variable (w : s.Window text dropped kept ahead unwritten)

include w

theorem floorBoundary (n : Nat) : s.floorBoundary n =
      byteLen dropped + floorFrom (kept ++ ahead) (min n s.totalLen - byteLen dropped) := by
  rw [MatchSink.floorBoundary, w.bufferStart, w.buffer]

theorem exists_offset (hle : byteLen dropped ≤ n) (hn : n ≤ s.totalLen) :
    ∃ k, n = byteLen dropped + k ∧ k ≤ byteLen (kept ++ ahead) := by
  rw [w.totalLen] at hn
  exact ⟨n - byteLen dropped, by omega, by omega⟩

theorem floorBoundary_text
    (hle : byteLen dropped ≤ n) (hn : n ≤ s.totalLen) : s.floorBoundary n = floorFrom text n := by
  obtain ⟨k, rfl, hk⟩ := w.exists_offset hle hn
  rw [w.floorBoundary, min_eq_left hn, Nat.add_sub_cancel_left, w.text_eq, floorFrom_part _ _ _ hk]

theorem ceilBoundary_text (hle : byteLen dropped ≤ n) (hn : n ≤ s.totalLen) :
    s.ceilBoundary n = ceilFrom text (byteLen text) n := by
  obtain ⟨k, rfl, hk⟩ := w.exists_offset hle hn
  rw [ceilBoundary, min_eq_left hn, w.bufferStart, Nat.add_sub_cancel_left, w.buffer,
    w.text_eq, ceilFrom_part _ _ _ hk (Nat.le_add_left _ _)]

theorem byteLen_text : byteLen text = s.totalLen + byteLen unwritten := by
  rw [w.totalLen, w.text_eq, byteLen_append, byteLen_append]

theorem snippet {start stop : Nat} (hstart : s.nextSearchFrom ≤ start) (hlt : start < stop)
    (hstop : stop + s.contextBytes ≤ s.totalLen ∨ unwritten = [] ∧ stop ≤ s.totalLen)
    (hbound : byteLen text < 2 ^ 63) (hcontext : s.contextBytes < 2 ^ 32) :
    s.ceilBoundary (min (saturatingAdd stop s.contextBytes) s.totalLen) - s.bufferStart ≤
        byteLen s.buffer ∧
      sliceBytes s.buffer (s.floorBoundary (start - s.contextBytes) - s.bufferStart)
        (s.ceilBoundary (min (saturatingAdd stop s.contextBytes) s.totalLen) - s.bufferStart) =
      sliceBytes text (floorFrom text (start - s.contextBytes))
        (ceilFrom text (byteLen text) (min (saturatingAdd stop s.contextBytes) (byteLen text))) := by
  have htext := w.byteLen_text
  have htotal := w.totalLen
  have hnext := w.nextSearchFrom
  have hmin : min (stop + s.contextBytes) (byteLen text) = min (stop + s.contextBytes) s.totalLen := by
    rcases hstop with hstop | ⟨rfl, hstop⟩
    · omega
    · rw [byteLen_nil] at htext
      omega
  have hlow : byteLen dropped ≤ start - s.contextBytes := by
    rcases w.context with hd | hd
    · rw [hd]
      exact Nat.zero_le _
    · omega
  rw [saturatingAdd_eq (by omega), hmin, w.floorBoundary_text hlow (by omega),
    w.ceilBoundary_text (n := min (stop + s.contextBytes) s.totalLen) (by omega)
      (Nat.min_le_right _ _)]
  -- Both ends, relative to the buffer.
  obtain ⟨i, hi⟩ : ∃ i, floorFrom text (start - s.contextBytes) = byteLen dropped + i := by
    refine ⟨floorFrom (kept ++ ahead) (start - s.contextBytes - byteLen dropped), ?_⟩
    rw [← w.floorBoundary_text hlow (by omega), w.floorBoundary, min_eq_left (by omega)]
  obtain ⟨j, hj, hle⟩ : ∃ j, ceilFrom text (byteLen text) (min (stop + s.contextBytes) s.totalLen) =
      byteLen dropped + j ∧ j ≤ byteLen (kept ++ ahead) := by
    have hk : min (stop + s.contextBytes) s.totalLen - byteLen dropped ≤ byteLen (kept ++ ahead) := by
      omega
    refine ⟨ceilFrom (kept ++ ahead) (byteLen (kept ++ ahead))
      (min (stop + s.contextBytes) s.totalLen - byteLen dropped), ?_, ?_⟩
    · rw [← w.ceilBoundary_text (by omega) (Nat.min_le_right _ _), ceilBoundary,
        w.bufferStart, w.buffer, Nat.min_assoc, Nat.min_self]
    · exact (ceilFrom_spec (kept ++ ahead) hk (Nat.le_add_left _ _)).2.1
  rw [hi, hj, w.bufferStart, w.buffer, Nat.add_sub_cancel_left, Nat.add_sub_cancel_left]
  refine ⟨hle, ?_⟩
  rw [w.text_eq, sliceBytes_part _ _ _ hle]

theorem withFound (found : List (Json.Value N)) :
    Window text { s with found := found } dropped kept ahead unwritten :=
  ⟨w.text_eq, w.buffer, w.bufferStart, w.nextSearchFrom, w.totalLen, w.context⟩

end

end Window

/-! ## One batch -/

/-- What the loop over the hits of a batch does: it records the first of them. -/
structure Took (p : Platform N) (text : Text) (s : MatchSink N) (flush : Bool)
    (safeEnd searchFrom advanceTo : Nat) (fs : List Found) (result : MatchSink N × Nat × Bool)
    (taken : List Found) : Prop where
  part : ∃ rest, fs.map (Found.shift searchFrom) = taken ++ rest ∧
    (result.1.limited = false → result.2.2 = false → rest = []) ∧
    (result.1.limited = true → rest.takeWhile (fun f => f.start < safeEnd) ≠ [])
  early : ∀ f ∈ taken, f.start < safeEnd ∧ (flush = false → f.stop + s.contextBytes ≤ safeEnd)
  sink : result.1 =
    { s with
      found := s.found ++ taken.map (hitJson p text s.contextBytes)
      limited := result.1.limited }
  advance : result.2.1 = (taken.getLast?.map Found.stop).getD advanceTo
  count : s.found.length + taken.length ≤ maxTextQueryHits
  full : result.1.limited = true → s.found.length + taken.length = maxTextQueryHits
  waits : result.2.2 = true → flush = true → ∃ f ∈ fs, safeEnd ≤ searchFrom + f.start

theorem Took.stop {safeEnd : Nat} {pending : Bool} (hlimited : s.limited = false)
    (hcount : s.found.length ≤ maxTextQueryHits) (hpart : fs = [] ∨ pending = true)
    (hwaits : pending = true → flush = true → ∃ f ∈ fs, safeEnd ≤ searchFrom + f.start) :
    Took p text s flush safeEnd searchFrom advanceTo fs (s, advanceTo, pending) [] := by
  refine ⟨⟨fs.map (Found.shift searchFrom), rfl, fun _ hpending => ?_, fun hlim => ?_⟩,
    forall_mem_nil _, ?_, rfl, hcount, fun hlim => ?_, hwaits⟩
  · rcases hpart with rfl | hp
    · rfl
    · exact absurd (hp.symm.trans hpending) (by simp)
  · exact absurd (hlimited.symm.trans hlim) (by simp)
  · rw [map_nil, append_nil]
  · exact absurd (hlimited.symm.trans hlim) (by simp)

theorem Took.full_here {safeEnd : Nat} {f : Found} (hearly : searchFrom + f.start < safeEnd)
    (hcount : s.found.length = maxTextQueryHits) :
    Took p text s flush safeEnd searchFrom advanceTo (f :: fs)
      ({ s with limited := true }, advanceTo, false) [] := by
  refine ⟨⟨_, rfl, fun h => absurd h (by simp), fun _ => ?_⟩,
    forall_mem_nil _, ?_, rfl, hcount.le, fun _ => hcount, fun h => absurd h Bool.false_ne_true⟩
  · have hstart : decide ((f.shift searchFrom).start < safeEnd) = true := decide_eq_true hearly
    rw [takeWhile_cons, if_pos hstart]
    exact cons_ne_nil _ _
  · rw [map_nil, append_nil]

theorem Took.cons {safeEnd : Nat} {f : Found} {taken : List Found}
    (h : Took p text { s with found := s.found ++
      [hitJson p text s.contextBytes (f.shift searchFrom)] } flush safeEnd searchFrom
        (searchFrom + f.stop) fs result taken)
    (hearly : searchFrom + f.start < safeEnd)
    (hroom : flush = false → searchFrom + f.stop + s.contextBytes ≤ safeEnd) :
    Took p text s flush safeEnd searchFrom advanceTo (f :: fs) result
      (f.shift searchFrom :: taken) := by
  have hcount := h.count
  have hlength : ∀ x : Json.Value N, (s.found ++ [x]).length = s.found.length + 1 := fun x => by simp
  rw [hlength] at hcount
  refine ⟨?_, ?_, ?_, ?_, ?_, ?_, ?_⟩
  · obtain ⟨rest, hrest, hnone, hsome⟩ := h.part
    exact ⟨rest, by rw [map_cons, hrest, cons_append], hnone, hsome⟩
  · exact forall_mem_cons.mpr ⟨⟨hearly, hroom⟩, h.early⟩
  · rw [h.sink]
    simp only [append_assoc, map_cons, singleton_append]
  · rw [h.advance]
    cases taken with
    | nil => rfl
    | cons g taken =>
      rw [getLast?_eq_some_getLast (cons_ne_nil _ _)]
      rfl
  · rw [length_cons]
    omega
  · intro hlim
    have hfull := h.full hlim
    rw [hlength] at hfull
    rw [length_cons]
    omega
  · intro hp hf
    obtain ⟨g, hg, hle⟩ := h.waits hp hf
    exact ⟨g, mem_cons_of_mem _ hg, hle⟩

theorem takeMatches_took {safeEnd : Nat} (hflush : flush = true → unwritten = [])
    (hbound : byteLen text < 2 ^ 63) :
    ∀ (fs : List Found) {s : MatchSink N} (advanceTo : Nat),
      s.Window text dropped kept ahead unwritten → searchFrom = s.nextSearchFrom →
      safeEnd ≤ s.totalLen → s.contextBytes < 2 ^ 32 →
      s.limited = false → s.found.length ≤ maxTextQueryHits →
      (∀ f ∈ fs, f.start < f.stop ∧ searchFrom + f.stop ≤ s.totalLen) →
      ∃ taken, Took p text s flush safeEnd searchFrom advanceTo fs
        (takeMatches p flush safeEnd searchFrom fs s advanceTo) taken := by
  intro fs
  induction fs with
  | nil =>
    intro s advanceTo _ _ _ _ hlimited hcount _
    exact ⟨[], .stop hlimited hcount (.inl rfl) fun h => absurd h Bool.false_ne_true⟩
  | cons f fs ih =>
    intro s advanceTo w hfrom hsafe hcontext hlimited hcount hfs
    obtain ⟨hlt, hstop⟩ := hfs f mem_cons_self
    have htext := w.byteLen_text
    rw [takeMatches]
    by_cases hlate : safeEnd ≤ searchFrom + f.start
    · rw [if_pos hlate]
      exact ⟨[], .stop hlimited hcount (.inr rfl) fun _ _ => ⟨f, mem_cons_self, hlate⟩⟩
    rw [if_neg hlate]
    by_cases hwait : (!flush && decide (safeEnd <
        saturatingAdd (searchFrom + f.stop) s.contextBytes)) = true
    · rw [if_pos hwait]
      refine ⟨[], .stop hlimited hcount (.inr rfl) fun _ htrue => ?_⟩
      rw [htrue] at hwait
      cases hwait
    rw [if_neg hwait]
    by_cases hfull : maxTextQueryHits ≤ s.found.length
    · rw [if_pos hfull]
      exact ⟨[], .full_here (not_le.mp hlate) (le_antisymm hcount hfull)⟩
    rw [if_neg hfull]
    -- The surroundings have been written.
    have hroom : flush = false → searchFrom + f.stop + s.contextBytes ≤ safeEnd := by
      intro hf
      rw [hf, saturatingAdd_eq (by omega)] at hwait
      simpa using hwait
    have hwritten : searchFrom + f.stop + s.contextBytes ≤ s.totalLen ∨
        unwritten = [] ∧ searchFrom + f.stop ≤ s.totalLen := by
      cases hf : flush with
      | true => exact .inr ⟨hflush hf, hstop⟩
      | false => exact .inl ((hroom hf).trans hsafe)
    have hstart : s.nextSearchFrom ≤ searchFrom + f.start := by omega
    obtain ⟨hend, hsnippet⟩ :=
      w.snippet hstart (Nat.add_lt_add_left hlt searchFrom) hwritten hbound hcontext
    rw [if_neg (not_lt.mpr hend), hsnippet]
    have htail : ∃ taken, Took p text { s with
          found := s.found ++ [hitJson p text s.contextBytes (f.shift searchFrom)] }
        flush safeEnd searchFrom (searchFrom + f.stop) fs (takeMatches p flush safeEnd searchFrom fs
          { s with found := s.found ++ [hitJson p text s.contextBytes (f.shift searchFrom)] }
          (searchFrom + f.stop)) taken := by
      refine ih _ (w.withFound _) hfrom hsafe hcontext hlimited ?_ fun g hg =>
        hfs g (mem_cons_of_mem _ hg)
      rw [length_append, length_singleton]
      omega
    obtain ⟨taken, htook⟩ := htail
    exact ⟨_, htook.cons (not_le.mp hlate) hroom⟩

theorem Tracks.releaseBuffer (h : s.Tracks p q text context maxMatch unwritten)
    (hlimited : s.limited = true) (rest : Text) :
    s.releaseBuffer.Tracks p q text context maxMatch rest :=
  ⟨h.matcher, h.contextBytes, h.maxMatchBytes, fun hfalse => absurd (hlimited.symm.trans hfalse)
    (by simp), h.limited⟩

theorem Window.advance (w : s.Window text dropped kept ahead unwritten) {reached : Nat}
    (hle : s.nextSearchFrom ≤ reached) {a b : Text} (ha : ahead = a ++ b)
    (hreached : reached = s.nextSearchFrom + byteLen a) :
    Window text { s with nextSearchFrom := max s.nextSearchFrom reached } dropped (kept ++ a) b
      unwritten := by
  subst ha
  have hnext := w.nextSearchFrom
  refine ⟨?_, ?_, w.bufferStart, ?_, ?_, ?_⟩
  · rw [append_assoc kept]
    exact w.text_eq
  · rw [append_assoc]
    exact w.buffer
  · show max _ _ = _
    rw [byteLen_append]
    omega
  · rw [append_assoc]
    exact w.totalLen
  · rcases w.context with hd | hd
    · exact .inl hd
    · refine .inr (hd.trans ?_)
      rw [byteLen_append]
      exact Nat.le_add_right _ _

theorem Window.trim (w : s.Window text dropped kept ahead unwritten)
    (hcontext : s.contextBytes < 2 ^ 32) :
    ∃ dropped' kept', s.trim.Window text dropped' kept' ahead unwritten := by
  rw [MatchSink.trim, saturatingAdd_eq (by rw [matchSlackBytes]; omega)]
  generalize hkeep : s.floorBoundary (s.nextSearchFrom - (s.contextBytes + matchSlackBytes)) = keep
  by_cases hlt : s.bufferStart < keep
  · rw [if_pos hlt]
    have hnext := w.nextSearchFrom
    have htotal := w.totalLen
    have hbytes := byteLen_append kept ahead
    -- The boundary splits what is kept.
    rw [w.floorBoundary, min_eq_left (by omega)] at hkeep
    have hfloor := floorFrom_le (kept ++ ahead)
      (s.nextSearchFrom - (s.contextBytes + matchSlackBytes) - byteLen dropped)
    obtain ⟨a, b, hab, ha⟩ := isCharBoundary_iff.mp (isCharBoundary_floorFrom (kept ++ ahead)
      (s.nextSearchFrom - (s.contextBytes + matchSlackBytes) - byteLen dropped))
    obtain ⟨kept', hkept, hb⟩ := split_of_byteLen_le hab.symm (by omega)
    subst hkept hb
    rw [w.bufferStart] at hlt
    refine ⟨dropped ++ a, kept', ?_, ?_, ?_, ?_, ?_, .inr ?_⟩
    · rw [w.text_eq]
      simp only [append_assoc]
    · show dropBytes (keep - s.bufferStart) s.buffer = _
      have hdrain : keep - s.bufferStart = byteLen a := by
        rw [w.bufferStart]
        omega
      rw [hdrain, w.buffer, append_assoc, dropBytes_byteLen]
    · show keep = _
      rw [byteLen_append]
      omega
    · show s.nextSearchFrom = _
      rw [byteLen_append] at hnext ⊢
      omega
    · show s.totalLen = _
      have hdropped := byteLen_append dropped a
      rw [append_assoc, byteLen_append a] at htotal
      omega
    · show s.contextBytes ≤ _
      rw [byteLen_append] at hnext
      omega
  · rw [if_neg hlt]
    exact ⟨dropped, kept, w⟩

theorem trim_fields (s : MatchSink N) :
    s.trim.matcher = s.matcher ∧ s.trim.contextBytes = s.contextBytes ∧
      s.trim.maxMatchBytes = s.maxMatchBytes ∧ s.trim.limited = s.limited ∧
      s.trim.found = s.found ∧ s.trim.nextSearchFrom = s.nextSearchFrom := by
  rw [MatchSink.trim]
  split <;> exact ⟨rfl, rfl, rfl, rfl, rfl, rfl⟩

theorem Tracks.advance (h : s.Tracks p q text context maxMatch unwritten)
    (hcontext : context < 2 ^ 32) (w : s.Window text dropped kept ahead unwritten)
    {done taken : List Found} {s' : MatchSink N} {a b : Text} {reached : Nat}
    (hs' : s' = { s with
      found := s.found ++ taken.map (hitJson p text s.contextBytes)
      limited := false })
    (hfound : s.found = done.map (hitJson p text context))
    (hcount : s.found.length + taken.length ≤ maxTextQueryHits) (ha : ahead = a ++ b)
    (hreached : reached = s.nextSearchFrom + byteLen a)
    (hhits : hits q 0 text = done ++ (taken ++ hits q reached (b ++ unwritten))) :
    (MatchSink.trim { s' with nextSearchFrom := max s'.nextSearchFrom reached }).Tracks p q text
      context maxMatch unwritten ∧
    (MatchSink.trim { s' with nextSearchFrom := max s'.nextSearchFrom reached }).found =
      (done ++ taken).map (hitJson p text context) := by
  subst hs'
  have hw := (w.advance (by omega) ha hreached)
  have hw' : Window text { s with
      found := s.found ++ taken.map (hitJson p text s.contextBytes)
      limited := false
      nextSearchFrom := max s.nextSearchFrom reached } dropped (kept ++ a) b unwritten :=
    ⟨hw.text_eq, hw.buffer, hw.bufferStart, hw.nextSearchFrom, hw.totalLen, hw.context⟩
  obtain ⟨hmatcher, hctx, hmax, hlim, hfnd, hnxt⟩ := trim_fields { s with
    found := s.found ++ taken.map (hitJson p text s.contextBytes)
    limited := false
    nextSearchFrom := max s.nextSearchFrom reached }
  obtain ⟨dropped', kept', hwindow⟩ := hw'.trim (by
    show s.contextBytes < _
    rw [h.contextBytes]
    exact hcontext)
  have hall : s.found ++ taken.map (hitJson p text s.contextBytes) =
      (done ++ taken).map (hitJson p text context) := by
    rw [hfound, h.contextBytes, map_append]
  refine ⟨⟨hmatcher.trans h.matcher, hctx.trans h.contextBytes, hmax.trans h.maxMatchBytes,
    fun _ => ⟨dropped', kept', b, hwindow, done ++ taken, ?_, ?_, hfnd.trans hall⟩,
    fun htrue => ?_⟩, hfnd.trans hall⟩
  · have hnext : max s.nextSearchFrom reached = reached := by omega
    rw [hnxt, hnext, append_assoc]
    exact hhits
  · rw [hfound, length_map] at hcount
    rw [length_append]
    exact hcount
  · exact absurd (hlim.symm.trans htrue) (by simp)

theorem mem_dropWhile_hits {safe : Nat} (h : fs.Pairwise fun f g => f.start ≤ g.start) :
    ∀ g ∈ fs.dropWhile (fun f => f.start < safe), safe ≤ g.start := by
  induction fs with
  | nil => exact forall_mem_nil _
  | cons f fs ih =>
    obtain ⟨hfirst, hrest⟩ := pairwise_cons.mp h
    by_cases hf : f.start < safe
    · rw [dropWhile_cons_of_pos (by simpa using hf)]
      exact ih hrest
    · rw [dropWhile_cons_of_neg (by simpa using hf)]
      have hle := not_lt.mp hf
      exact forall_mem_cons.mpr ⟨hle, fun g hg => hle.trans (hfirst g hg)⟩

theorem Window.safeEnd (w : s.Window text dropped kept ahead unwritten) (n : Nat)
    (hn : n ≤ s.totalLen) :
    s.floorBoundary n ≤ max (byteLen dropped) n ∧ (n = s.totalLen → s.floorBoundary n = n) ∧
      (s.nextSearchFrom ≤ s.floorBoundary n →
        ∃ a b, ahead = a ++ b ∧ s.floorBoundary n = s.nextSearchFrom + byteLen a) := by
  have htotal := w.totalLen
  have hnext := w.nextSearchFrom
  rw [w.floorBoundary, min_eq_left hn]
  have hfloor := floorFrom_le (kept ++ ahead) (n - byteLen dropped)
  refine ⟨by omega, fun hall => ?_, fun hle => ?_⟩
  · have hlen : n - byteLen dropped = byteLen (kept ++ ahead) := by omega
    rw [hlen, floorFrom_of_boundary (isCharBoundary_byteLen _)]
    omega
  · obtain ⟨x, y, hxy, hx⟩ := isCharBoundary_iff.mp
      (isCharBoundary_floorFrom (kept ++ ahead) (n - byteLen dropped))
    rw [← hx] at hle ⊢
    obtain ⟨a, rfl, hahead⟩ := split_of_byteLen_le hxy (by omega)
    refine ⟨a, y, hahead, ?_⟩
    rw [byteLen_append]
    omega

theorem Window.searchEnd (w : s.Window text dropped kept ahead unwritten)
    (hle : s.nextSearchFrom ≤ n) (hn : n ≤ s.totalLen) :
    ∃ v y, ahead = v ++ y ∧
      min (s.ceilBoundary n - s.bufferStart) (byteLen s.buffer) = byteLen kept + byteLen v ∧
      n ≤ s.nextSearchFrom + byteLen v ∧ (n = s.totalLen → y = []) ∧
      sliceBytes s.buffer (byteLen kept) (byteLen kept + byteLen v) = v := by
  have htotal := w.totalLen
  have hnext := w.nextSearchFrom
  have hk : n - byteLen dropped ≤ byteLen (kept ++ ahead) := by omega
  obtain ⟨h1, h2, h3, -⟩ := ceilFrom_spec (kept ++ ahead) hk (Nat.le_add_left _ _)
  rw [ceilBoundary, min_eq_left hn, w.bufferStart, w.buffer, Nat.add_sub_cancel_left,
    min_eq_left h2]
  obtain ⟨x, y, hxy, hx⟩ := isCharBoundary_iff.mp h3
  rw [← hx] at h1 h2 ⊢
  obtain ⟨v, rfl, hahead⟩ := split_of_byteLen_le hxy (by omega)
  rw [byteLen_append] at h1
  refine ⟨v, y, hahead, byteLen_append _ _, by omega, fun hall => ?_, ?_⟩
  · rw [hahead, byteLen_append, byteLen_append] at htotal
    exact eq_nil_of_byteLen (by omega)
  · rw [hahead, ← append_assoc]
    exact sliceBytes_eq kept v y

/-- The batch of a scan: the sink looks at `v` and may record what starts before `safeEnd`. -/
structure Batch (s : MatchSink N) (flush : Bool) (safeEnd : Nat) (ahead unwritten v y : Text) :
    Prop where
  ahead_eq : ahead = v ++ y
  safe : s.nextSearchFrom < safeEnd
  inside : safeEnd ≤ s.totalLen
  boundary : ∃ a b, ahead = a ++ b ∧ safeEnd = s.nextSearchFrom + byteLen a
  room : y ++ unwritten = [] ∨ safeEnd + s.maxMatchBytes ≤ s.nextSearchFrom + byteLen v
  whole : flush = true → safeEnd = s.totalLen

theorem Batch.length_le {safeEnd : Nat} {v y : Text} (h : Batch s flush safeEnd ahead unwritten v y)
    (w : s.Window text dropped kept ahead unwritten) :
    s.nextSearchFrom + byteLen v ≤ s.totalLen := by
  rw [w.nextSearchFrom, w.totalLen, h.ahead_eq, byteLen_append, byteLen_append]
  omega

theorem retention_eq (h : s.contextBytes < 2 ^ 32) :
    s.retention = s.contextBytes + matchSlackBytes := by
  rw [retention, saturatingAdd, searchWindowBytes, matchSlackBytes]
  omega

section

variable (b : Bounds q text context maxMatch)

include b

theorem Window.scan_eq (w : s.Window text dropped kept ahead unwritten)
    (hlimited : s.limited = false) (hflush : flush = true → unwritten = [])
    (hcontext : s.contextBytes = context) (hmax : s.maxMatchBytes = maxMatch) :
    s.scan p flush = s ∧ (flush = true → ahead = []) ∨
    ∃ safeEnd v y, Batch s flush safeEnd ahead unwritten v y ∧ ∃ result,
      result = takeMatches p flush safeEnd s.nextSearchFrom (findIter s.matcher v) s
        s.nextSearchFrom ∧
      s.scan p flush = if result.1.limited then result.1.releaseBuffer
        else MatchSink.trim { result.1 with
          nextSearchFrom := max result.1.nextSearchFrom
            (if result.2.2 then result.2.1 else safeEnd) } := by
  have htotal := w.totalLen
  have hnext := w.nextSearchFrom
  have htext := w.byteLen_text
  have hbytes := byteLen_append kept ahead
  have htextlt := b.text_lt
  have hslack := b.slack
  have hretention := retention_eq (by rw [hcontext]; exact b.context_lt)
  have hslackdef : matchSlackBytes = 8192 := rfl
  obtain ⟨hle, hall, hsplit⟩ := w.safeEnd (if flush then s.totalLen else s.totalLen - s.retention)
    (by split <;> omega)
  rw [scan, if_neg (by simp [hlimited])]
  dsimp only
  generalize hsafe : s.floorBoundary (if flush then s.totalLen else s.totalLen - s.retention) = safeEnd
    at hle hall hsplit ⊢
  have hwhole : flush = true → safeEnd = s.totalLen := by
    intro hf
    rw [hf] at hall
    exact hall rfl
  have hinside : safeEnd ≤ s.totalLen := by
    refine hle.trans ?_
    split <;> omega
  have hfrom : max s.nextSearchFrom s.bufferStart = s.nextSearchFrom := by
    rw [w.bufferStart]
    omega
  have hbase : s.nextSearchFrom - s.bufferStart = byteLen kept := by
    rw [w.bufferStart]
    omega
  rw [hfrom, hbase]
  by_cases hsafe' : safeEnd ≤ s.nextSearchFrom
  · refine .inl ⟨?_, fun hf => ?_⟩
    · rw [if_pos (by simp [hsafe'])]
    · have := hwhole hf
      exact eq_nil_of_byteLen (by omega)
  have hsum : saturatingAdd safeEnd s.maxMatchBytes = _ := saturatingAdd_eq (by omega)
  obtain ⟨v, y, hahead, hsearch, hreach, hy, hslice⟩ := w.searchEnd
    (n := min (saturatingAdd safeEnd s.maxMatchBytes) s.totalLen) (by omega) (Nat.min_le_right _ _)
  rw [hsearch]
  have hnot : ¬ (decide (safeEnd ≤ s.nextSearchFrom) || decide (safeEnd ≤ s.nextSearchFrom) ||
      decide (byteLen kept + byteLen v ≤ byteLen kept)) = true := by
    simp only [Bool.or_eq_true, decide_eq_true_eq, not_or]
    omega
  rw [if_neg hnot, hslice]
  refine .inr ⟨safeEnd, v, y, ⟨hahead, by omega, hinside, hsplit (by omega), ?_, hwhole⟩, _, rfl, rfl⟩
  cases flush with
  | true =>
    have htotal' := hwhole rfl
    rw [hy (by omega), hflush rfl]
    exact .inl rfl
  | false =>
    rw [if_neg Bool.false_ne_true] at hle
    exact .inr (by omega)

theorem Batch.hits {safeEnd : Nat} {v y : Text} (h : Batch s flush safeEnd ahead unwritten v y)
    (hmax : s.maxMatchBytes = maxMatch) {taken rest : List Found}
    (hv : Mcp.hits q s.nextSearchFrom v = taken ++ rest)
    (hearly : ∀ f ∈ taken, f.start < safeEnd) :
    ∃ later, Mcp.hits q s.nextSearchFrom (ahead ++ unwritten) =
        taken ++ (rest.takeWhile (fun f => f.start < safeEnd) ++ later) ∧
      ∀ g ∈ later, safeEnd ≤ g.start := by
  have hmatch := b.matchBytes
  have hroom : y ++ unwritten = [] ∨ safeEnd + 4 * q.length ≤ s.nextSearchFrom + byteLen v :=
    h.room.imp_right fun hr => by omega
  have htake := takeWhile_hits b.query v (y ++ unwritten) s.nextSearchFrom safeEnd hroom
  rw [hv, takeWhile_append_of_pos fun f hf => decide_eq_true (hearly f hf),
    ← append_assoc, ← h.ahead_eq] at htake
  refine ⟨(Mcp.hits q s.nextSearchFrom (ahead ++ unwritten)).dropWhile
    (fun f => f.start < safeEnd), ?_, ?_⟩
  · rw [← append_assoc, htake, takeWhile_append_dropWhile]
  · refine mem_dropWhile_hits ?_
    refine (pairwise_hits b.query _ _).imp_of_mem fun {f g} hf _ hle => ?_
    have := (mem_hits b.query hf).2.1
    omega

theorem Batch.resume {safeEnd : Nat} {v y : Text} (h : Batch s flush safeEnd ahead unwritten v y)
    (w : s.Window text dropped kept ahead unwritten)
    {taken rest later : List Found}
    (htook : Took p text s flush safeEnd s.nextSearchFrom s.nextSearchFrom
      (Mcp.hits q 0 v) result taken)
    (hrest : Mcp.hits q s.nextSearchFrom v = taken ++ rest)
    (hlater : Mcp.hits q s.nextSearchFrom (ahead ++ unwritten) = taken ++
      (rest.takeWhile (fun f => f.start < safeEnd) ++ later))
    (hlate : ∀ g ∈ later, safeEnd ≤ g.start) (hdone : result.2.2 = false → rest = []) :
    ∃ x z, ahead = x ++ z ∧
      (if result.2.2 then result.2.1 else safeEnd) = s.nextSearchFrom + byteLen x ∧
      rest.takeWhile (fun f => f.start < safeEnd) ++ later =
        Mcp.hits q (s.nextSearchFrom + byteLen x) (z ++ unwritten) := by
  have hinside := h.length_le w
  have hstop : ∀ f ∈ taken, f.stop ≤ safeEnd := by
    intro f hf
    cases hflushed : flush with
    | false =>
      have := (htook.early f hf).2 hflushed
      omega
    | true =>
      have hmem : f ∈ Mcp.hits q s.nextSearchFrom v := by
        rw [hrest]
        exact mem_append_left _ hf
      have := mem_hits b.query hmem
      have := h.whole hflushed
      omega
  cases hpending : result.2.2 with
  | false =>
    obtain ⟨x, z, hahead, hsafe⟩ := h.boundary
    refine ⟨x, z, hahead, by rw [if_neg Bool.false_ne_true, hsafe], ?_⟩
    have hnil := hdone hpending
    rw [hnil, takeWhile_nil] at hlater ⊢
    rw [hahead, append_assoc] at hlater
    exact hits_restart b.query x (z ++ unwritten) _ hlater
      (fun f hf => hsafe ▸ hstop f hf) fun g hg => hsafe ▸ hlate g hg
  | true =>
    rw [htook.advance]
    cases htaken : taken.getLast? with
    | none =>
      rw [getLast?_eq_none_iff.mp htaken] at hlater
      exact ⟨[], ahead, rfl, rfl, hlater.symm⟩
    | some f =>
      obtain ⟨before, rfl⟩ := getLast?_eq_some_iff.mp htaken
      have hmem : f ∈ Mcp.hits q s.nextSearchFrom v := by
        rw [hrest]
        simp
      obtain ⟨-, -, -, x, z, hv, hend⟩ := mem_hits b.query hmem
      have hsorted := pairwise_hits b.query (ahead ++ unwritten) s.nextSearchFrom
      rw [hlater, pairwise_append] at hsorted
      obtain ⟨hbefore, -, hafter⟩ := hsorted
      refine ⟨x, z ++ y, ?_, ?_, ?_⟩
      · rw [h.ahead_eq, hv, append_assoc]
      · exact hend
      rw [h.ahead_eq, hv, append_assoc, append_assoc] at hlater
      rw [append_assoc]
      refine hits_restart b.query x _ _ hlater (fun g hg => ?_) fun g hg => ?_
      · rw [← hend]
        rcases mem_append.mp hg with hg | hg
        · have := (pairwise_append.mp hbefore).2.2 g hg f (mem_singleton_self f)
          have := (mem_hits b.query hmem).2.1
          omega
        · rw [mem_singleton.mp hg]
      · rw [← hend]
        exact hafter f (by simp) g hg

theorem Tracks.scan
    (h : s.Tracks p q text context maxMatch unwritten) (hflush : flush = true → unwritten = []) :
    (s.scan p flush).Tracks p q text context maxMatch unwritten ∧
      (flush = true → (s.scan p flush).limited = false →
        (Mcp.hits q 0 text).length ≤ maxTextQueryHits ∧
          (s.scan p flush).found = (Mcp.hits q 0 text).map (hitJson p text context)) := by
  cases hlimited : s.limited with
  | true =>
    have hscan : s.scan p flush = s.releaseBuffer := by rw [MatchSink.scan, if_pos hlimited]
    rw [hscan]
    exact ⟨h.releaseBuffer hlimited _, fun _ hfalse =>
      absurd (hlimited.symm.trans hfalse) (by simp)⟩
  | false =>
  obtain ⟨dropped, kept, ahead, w, done, hhits, hcount, hfound⟩ := h.unlimited hlimited
  rcases w.scan_eq (p := p) b hlimited hflush h.contextBytes h.maxMatchBytes with
    ⟨hscan, hnone⟩ | ⟨safeEnd, v, y, hbatch, result, hresult, hscan⟩
  · rw [hscan]
    refine ⟨h, fun hf _ => ?_⟩
    rw [hnone hf, hflush hf, append_nil, hits_nil, append_nil] at hhits
    rw [hhits]
    exact ⟨hcount, hfound⟩
  have hinside := hbatch.length_le w
  have hctx : s.contextBytes < 2 ^ 32 := by
    rw [h.contextBytes]
    exact b.context_lt
  have hfound_length : s.found.length = done.length := by rw [hfound, length_map]
  rw [h.matcher, findIter_all_char b.query] at hresult
  have htook : ∃ taken, Took p text s flush safeEnd s.nextSearchFrom s.nextSearchFrom
      (Mcp.hits q 0 v) result taken := by
    rw [hresult]
    refine takeMatches_took hflush b.text_lt _ _ w rfl hbatch.inside hctx hlimited
      (by omega) fun f hf => ?_
    obtain ⟨-, hlt, hle, -⟩ := mem_hits b.query hf
    exact ⟨hlt, by omega⟩
  obtain ⟨taken, htook⟩ := htook
  obtain ⟨rest, hrest, hdone, hmore⟩ := htook.part
  rw [← hits_shift b.query] at hrest
  obtain ⟨later, hlater, hlate⟩ := hbatch.hits b h.maxMatchBytes hrest fun f hf =>
    (htook.early f hf).1
  have hsink := htook.sink
  have hcount' := htook.count
  cases hlim : result.1.limited with
  | true =>
    rw [hlim] at hscan
    have hfull := htook.full hlim
    have hmany : maxTextQueryHits < (Mcp.hits q 0 text).length := by
      have hpos := length_pos_iff.mpr (hmore hlim)
      rw [hhits, hlater, length_append, length_append, length_append]
      omega
    have htracks : result.1.Tracks p q text context maxMatch unwritten := by
      refine ⟨?_, ?_, ?_, fun hfalse => absurd (hlim.symm.trans hfalse) (by simp), fun _ =>
        ⟨hmany, ?_⟩⟩
      · rw [hsink]
        exact h.matcher
      · rw [hsink]
        exact h.contextBytes
      · rw [hsink]
        exact h.maxMatchBytes
      · have hlen : (done ++ taken).length = maxTextQueryHits := by
          rw [length_append]
          omega
        rw [hhits, hlater, ← append_assoc, ← hlen, take_left, hsink, hfound,
          map_append, h.contextBytes]
    rw [hscan]
    exact ⟨htracks.releaseBuffer hlim _, fun _ hfalse =>
      absurd (hlim.symm.trans hfalse) (by simp)⟩
  | false =>
  rw [hlim] at hscan
  rw [hlim] at hsink
  obtain ⟨x, z, hahead, hreached, hnext⟩ := hbatch.resume b w htook hrest hlater hlate (hdone hlim)
  rw [hlater, hnext] at hhits
  have hall := h.advance b.context_lt w hsink hfound hcount' hahead hreached (by
    rw [hreached]
    exact hhits)
  rw [hscan]
  refine ⟨hall.1, fun hf _ => ?_⟩
  -- At the end nothing is left.
  have hpending : result.2.2 = false := by
    by_contra hp
    obtain ⟨f, hf', hle⟩ := htook.waits (by simpa using hp) hf
    have := mem_hits b.query hf'
    have := hbatch.whole hf
    omega
  have hend : z = [] := by
    rw [hpending, if_neg Bool.false_ne_true, hbatch.whole hf] at hreached
    have htotal := w.totalLen
    have hstart := w.nextSearchFrom
    rw [hahead, byteLen_append, byteLen_append] at htotal
    exact eq_nil_of_byteLen (by omega)
  rw [hend, hflush hf, append_nil, hits_nil, append_nil] at hhits
  rw [hhits]
  refine ⟨?_, hall.2⟩
  rw [length_append]
  omega

theorem Tracks.writeStr {piece rest : Text}
    (h : s.Tracks p q text context maxMatch (piece ++ rest)) :
    (s.writeStr p piece).Tracks p q text context maxMatch rest := by
  by_cases hpiece : piece = []
  · rw [MatchSink.writeStr, if_pos hpiece]
    rwa [hpiece, nil_append] at h
  rw [MatchSink.writeStr, if_neg hpiece]
  dsimp only
  by_cases hfull : s.limited = true
  · rw [if_pos hfull]
    exact ⟨h.matcher, h.contextBytes, h.maxMatchBytes,
      fun hfalse => absurd (hfull.symm.trans hfalse) (by simp), h.limited⟩
  rw [if_neg hfull]
  have hlimited : s.limited = false := Bool.eq_false_iff.mpr hfull
  obtain ⟨dropped, kept, ahead, w, done, hhits, hcount, hfound⟩ := h.unlimited hlimited
  have htext := w.byteLen_text
  rw [byteLen_append] at htext
  have hlt := b.text_lt
  have htracks : MatchSink.Tracks p q text context maxMatch
      { s with totalLen := saturatingAdd s.totalLen (byteLen piece), buffer := s.buffer ++ piece }
      rest := by
    refine ⟨h.matcher, h.contextBytes, h.maxMatchBytes, fun _ =>
      ⟨dropped, kept, ahead ++ piece, ⟨?_, ?_, w.bufferStart, w.nextSearchFrom, ?_, w.context⟩, done,
        ?_, hcount, hfound⟩, fun htrue => absurd (hlimited.symm.trans htrue) (by simp)⟩
    · rw [w.text_eq]
      simp only [append_assoc]
    · show s.buffer ++ piece = _
      rw [w.buffer, append_assoc]
    · show saturatingAdd _ _ = _
      rw [saturatingAdd_eq (by omega), w.totalLen, ← append_assoc, byteLen_append _ piece, add_assoc]
    · rw [hhits, append_assoc]
  have hscanned := (htracks.scan b (fun hfalse => absurd hfalse Bool.false_ne_true)).1
  split
  · exact hscanned
  · exact htracks

theorem Tracks.writeAll (pieces : List Text) {s : MatchSink N}
    (h : s.Tracks p q text context maxMatch (pieces.flatten ++ rest)) :
    (pieces.foldl (fun s piece => s.writeStr p piece) s).Tracks p q text context maxMatch rest := by
  induction pieces generalizing s with
  | nil => exact h
  | cons piece pieces ih =>
    rw [flatten_cons, append_assoc] at h
    exact ih (h.writeStr b)

theorem Tracks.finish (h : s.Tracks p q text context maxMatch []) :
    (s.finish p).limited = decide (maxTextQueryHits < (Mcp.hits q 0 text).length) ∧
      (s.finish p).found =
        ((Mcp.hits q 0 text).take maxTextQueryHits).map (hitJson p text context) := by
  have hflush : true = true → ([] : Text) = [] := fun _ => rfl
  obtain ⟨hend, hdone⟩ := h.scan b hflush
  rw [MatchSink.finish]
  cases hlimited : (s.scan p true).limited with
  | true =>
    obtain ⟨hmany, hfound⟩ := hend.limited hlimited
    exact ⟨(decide_eq_true hmany).symm, hfound⟩
  | false =>
    obtain ⟨hfew, hfound⟩ := hdone rfl hlimited
    rw [take_of_length_le hfew]
    exact ⟨(decide_eq_false (not_lt.mpr hfew)).symm, hfound⟩

end

end MatchSink

theorem bounds_query {p : Platform N} {text query : Text} {context : Nat}
    (hquery : query ≠ []) (hlen : query.length ≤ 256) (hcontext : context ≤ 1024)
    (htext : byteLen text < 2 ^ 63) :
    Bounds (query.map p.unicode.simpleFold) text context (byteLen query * 4 + 64) := by
  have hbytes := byteLen_le query
  have hchars := length_le_byteLen query
  refine ⟨by simpa using hquery, ?_, ?_, by omega, htext⟩
  · rw [length_map]
    omega
  · rw [matchSlackBytes]
    omega

section

variable {p : Platform N} {text query : Text} (hliteral : p.literalError query = none)

include hliteral

theorem MatchSink.new_tracks {context : Nat} (hlen : query.length ≤ 256) :
    ∃ s, new p query context = .ok s ∧
      s.Tracks p (query.map p.unicode.simpleFold) text context (byteLen query * 4 + 64) text := by
  have hbytes := byteLen_le query
  have hmax : saturatingAdd (min (byteLen query * 4) (2 ^ 64 - 1)) 64 = byteLen query * 4 + 64 := by
    rw [saturatingAdd]
    omega
  refine ⟨_, by rw [new, hliteral], ⟨?_, rfl, hmax, fun _ => ⟨[], [], [], ?_⟩,
    fun htrue => absurd htrue (by simp)⟩⟩
  · rw [map_map]
    rfl
  · exact ⟨⟨rfl, rfl, rfl, rfl, rfl, .inl rfl⟩, [], rfl, Nat.zero_le _, rfl⟩

theorem textMatches_eq {context : Nat} (hquery : query ≠ []) : textMatches p text query context =
      (((hits (query.map p.unicode.simpleFold) 0 text).take maxTextQueryHits).map
        (hitJson p text context),
        decide (maxTextQueryHits < (hits (query.map p.unicode.simpleFold) 0 text).length)) := by
  have hiter : findIter (queryRegex p.unicode query).pattern text =
      hits (query.map p.unicode.simpleFold) 0 text := by
    rw [← findIter_all_char (by simpa using hquery), map_map]
    rfl
  rw [textMatches, hliteral]
  dsimp only
  rw [hiter, textMatchesFrom_eq p text context _ [] (Nat.zero_le _)]
  simp

theorem MatchSink.new_searched {context : Nat} (hquery : query ≠ []) (hlen : query.length ≤ 256)
    (hcontext : context ≤ 1024) (htext : byteLen text < 2 ^ 63) :
    ∃ s, new p query context = .ok s ∧ ∀ pieces : List Text, pieces.flatten = text →
      (((pieces.foldl (fun s piece => s.writeStr p piece) s).finish p).found,
        ((pieces.foldl (fun s piece => s.writeStr p piece) s).finish p).limited) =
      textMatches p text query context := by
  have hbounds := bounds_query (p := p) hquery hlen hcontext htext
  obtain ⟨s, hnew, htracks⟩ := @MatchSink.new_tracks N p text query hliteral context hlen
  refine ⟨s, hnew, ?_⟩
  rintro pieces rfl
  obtain ⟨hlimited, hfound⟩ := (Tracks.writeAll hbounds pieces (by rwa [append_nil])).finish hbounds
  rw [textMatches_eq hliteral hquery, hfound, hlimited]

end

end AiProxy.Mcp
