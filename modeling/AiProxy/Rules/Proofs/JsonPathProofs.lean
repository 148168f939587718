import AiProxy.Lib.Fallible
import AiProxy.Rules.JsonPath

/-!
# Fields at paths

Setting a field writes the value at its path and leaves every path alone that does not lead through it
or to it.
-/

namespace AiProxy.Rules

open Option List
open Json (Bytes Value Apart getMember insertMember)

variable {N : Type}
variable {root value : Value N} {s : JsonPathSegment} {p : List JsonPathSegment}

theorem getJsonPathValue_eq_get (root : Value N) (p : List JsonPathSegment) :
    getJsonPathValue root p = root.get p := by
  induction p generalizing root with
  | nil => rfl
  | cons s p ih =>
    cases s <;> cases root <;> first | rfl | exact congrArg (Option.bind _) (funext ih)

/-! ## Setting a field -/

structure Writes (root root' : Value N) (s : JsonPathSegment) (new : Value N) : Prop where
  self : root'.child s = some new
  other : ∀ t, t ≠ s → root'.child t = root.child t

theorem writes_member {members : List (Bytes × Value N)} (h : objectAt root = .ok members)
    (k : Bytes) (new : Value N) :
    Writes root (.object (insertMember k new members)) (.key k) new := by
  refine ⟨Json.getMember_insertMember_self, fun t ht => ?_⟩
  have hchild : ∀ t, (Value.object members).child t = root.child t := by
    intro t
    cases root with
    | null => cases h; cases t <;> rfl
    | object ms => cases h; rfl
    | bool b | number n | string text | array items => cases h
  rw [← hchild t]
  cases t with
  | index i => rfl
  | key k' => exact Json.getMember_insertMember_ne fun hk => ht (congrArg _ hk.symm)

theorem writes_set {items : List (Value N)} {i : Nat} (hi : i < items.length) (new : Value N) :
    Writes (.array items) (.array (items.set i new)) (.index i) new := by
  refine ⟨getElem?_set_self hi, fun t ht => ?_⟩
  cases t with
  | key k => rfl
  | index j => exact getElem?_set_ne fun hij => ht (congrArg _ hij.symm)

theorem writes_push (items : List (Value N)) (new : Value N) :
    Writes (.array items) (.array (items ++ [new])) (.index items.length) new := by
  refine ⟨by simp [Value.child], fun t ht => ?_⟩
  cases t with
  | key k => rfl
  | index j =>
    have hj : j ≠ items.length := fun hj => ht (congrArg _ hj)
    show (items ++ [new])[j]? = items[j]?
    rcases Nat.lt_or_gt_of_ne hj with hlt | hgt
    · exact getElem?_append_left hlt
    · rw [getElem?_eq_none (by simp; omega), getElem?_eq_none (by omega)]

theorem arrayAt_ok {i : Nat} {items : List (Value N)}
    (h : arrayAt i root = .ok items) : root = .array items := by
  cases root <;> cases h
  rfl

theorem setJsonPathValue_eq_ok_iff {root' : Value N} :
    setJsonPathValue root p value = .ok root' ↔
      setJsonPathInPlace root p value = (root', .ok ()) := by
  rw [setJsonPathValue, Prod.ext_iff]
  cases (setJsonPathInPlace root p value).2 with
  | error e => exact iff_of_false (by rintro ⟨⟩) (by rintro ⟨-, ⟨⟩⟩)
  | ok done => exact ⟨fun h => ⟨Except.ok.inj h, rfl⟩, fun h => congrArg _ h.1⟩

theorem setJsonPathValue_last {root' : Value N}
    (h : setJsonPathValue root [s] value = .ok root') : Writes root root' s value := by
  rw [setJsonPathValue_eq_ok_iff] at h
  cases s with
  | key k =>
    rw [setJsonPathInPlace] at h
    cases hmembers : objectAt root with
    | error e => rw [hmembers] at h; cases h
    | ok members =>
      rw [hmembers] at h
      cases h
      exact writes_member hmembers k value
  | index i =>
    rw [setJsonPathInPlace] at h
    cases hitems : arrayAt i root with
    | error e => rw [hitems] at h; cases h
    | ok items =>
      obtain rfl := arrayAt_ok hitems
      simp only [hitems] at h
      split at h
      · next hi =>
        cases h
        subst hi
        exact writes_push items value
      · split at h
        · next hi =>
          cases h
          exact writes_set hi value
        · cases h

theorem setJsonPathValue_step {root' : Value N} {t : JsonPathSegment}
    (h : setJsonPathValue root (s :: t :: p) value = .ok root') :
    ∃ new, setJsonPathValue ((root.child s).getD (.object [])) (t :: p) value = .ok new ∧
      Writes root root' s new := by
  simp only [setJsonPathValue_eq_ok_iff] at h ⊢
  cases s with
  | key k =>
    rw [setJsonPathInPlace] at h
    cases hmembers : objectAt root with
    | error e => rw [hmembers] at h; cases h
    | ok members =>
      have hchild : root.child (.key k) = getMember k members := by
        cases root <;> cases hmembers <;> rfl
      rw [hmembers] at h
      obtain ⟨rfl, hresult⟩ := Prod.ext_iff.mp h
      rw [hchild]
      exact ⟨_, Prod.ext rfl hresult, writes_member hmembers k _⟩
  | index i =>
    rw [setJsonPathInPlace] at h
    cases hitems : arrayAt i root with
    | error e => rw [hitems] at h; cases h
    | ok items =>
      obtain rfl := arrayAt_ok hitems
      cases hitem : items[i]? with
      | none => simp only [hitems, hitem] at h; cases h
      | some item =>
        have hchild : (Value.array items).child (.index i) = some item := hitem
        simp only [hitems, hitem] at h
        obtain ⟨rfl, hresult⟩ := Prod.ext_iff.mp h
        rw [hchild]
        exact ⟨_, Prod.ext rfl hresult, writes_set (List.getElem?_eq_some_iff.mp hitem).1 _⟩

theorem get_set : ∀ {root root' : Value N}, setJsonPathValue root p value = .ok root' →
      root'.get p = some value := by
  induction p with
  | nil => intro root root' h; cases h
  | cons s p ih =>
    intro root root' h
    cases p with
    | nil =>
      rw [Value.get, (setJsonPathValue_last h).self]
      rfl
    | cons t p =>
      obtain ⟨new, hnew, hwrites⟩ := setJsonPathValue_step h
      rw [Value.get, hwrites.self]
      exact ih hnew

theorem get_empty_object (t : JsonPathSegment) (q : List JsonPathSegment) :
    (Value.object [] : Value N).get (t :: q) = none := by
  cases t <;> rfl

theorem get_set_apart : ∀ {root root' : Value N} {q : List JsonPathSegment},
      setJsonPathValue root p value = .ok root' → Apart p q → root'.get q = root.get q := by
  induction p with
  | nil => intro root root' q h; cases h
  | cons s p ih =>
    intro root root' q h hapart
    cases q with
    | nil => exact absurd nil_prefix hapart.2
    | cons t q =>
      by_cases hst : t = s
      · subst hst
        cases p with
        | nil => exact absurd ⟨q, rfl⟩ hapart.1
        | cons s' p =>
          obtain ⟨new, hnew, hwrites⟩ := setJsonPathValue_step h
          have hrest : Apart (s' :: p) q := ⟨fun hp => hapart.1 (cons_prefix_cons.mpr ⟨rfl, hp⟩),
              fun hq => hapart.2 (cons_prefix_cons.mpr ⟨rfl, hq⟩)⟩
          rw [Value.get, Value.get, hwrites.self, bind_some, ih hnew hrest]
          cases hchild : root.child t with
          | some old => rfl
          | none =>
            -- the field was created on the way
            cases q with
            | nil => exact absurd nil_prefix hrest.2
            | cons t' q => exact get_empty_object t' q
      · have hwrites : ∃ new, Writes root root' s new := by
          cases p with
          | nil => exact ⟨value, setJsonPathValue_last h⟩
          | cons s' p =>
            obtain ⟨new, -, hwrites⟩ := setJsonPathValue_step h
            exact ⟨new, hwrites⟩
        obtain ⟨new, hwrites⟩ := hwrites
        rw [Value.get, Value.get, hwrites.other t hst]

/-- A field that is set is read back, and the fields at all other paths are as before. -/
theorem set_field_laws (root root' value : Value N) (segments : List JsonPathSegment)
    (h : setJsonPathValue root segments value = .ok root') :
    getJsonPathValue root' segments = some value ∧
      ∀ q, ¬ q <+: segments → ¬ segments <+: q →
        getJsonPathValue root' q = getJsonPathValue root q := by
  refine ⟨(getJsonPathValue_eq_get root' segments).trans (get_set h), fun q hq hs => ?_⟩
  rw [getJsonPathValue_eq_get, getJsonPathValue_eq_get]
  exact get_set_apart h ⟨hs, hq⟩

theorem set_field_laws_created :
    getJsonPathValue (.object [([97], .object [([98], .bool true)])] : Value Unit)
        [.key [97], .key [98]] = some (.bool true) ∧
      getJsonPathValue (.object [([97], .object [([98], .bool true)])] : Value Unit) [.key [99]] =
        getJsonPathValue .null [.key [99]] :=
  have h := set_field_laws .null _ (.bool true) [.key [97], .key [98]] rfl
  ⟨h.1, h.2 [.key [99]] (by decide) (by decide)⟩

theorem insertMember_same {k : Bytes} {v : Value N} {ms : List (Bytes × Value N)}
    (h : getMember k ms = some v) : insertMember k v ms = ms := by
  induction ms with
  | nil => cases h
  | cons m ms ih =>
    obtain ⟨a, x⟩ := m
    rw [insertMember]
    split
    · next ha =>
      obtain rfl : a = k := ha
      rw [Json.getMember_cons_self rfl] at h
      cases h
      rfl
    · next ha =>
      rw [Json.getMember_cons_ne ha] at h
      rw [ih h]

/-- What a step before the last one does with the value: the rest of the path works on the child, or on
an empty object, which becomes the child. -/
structure StepsInPlace (root root' : Value N) (s : JsonPathSegment) (new : Value N) : Prop where
  self : root'.child s = some new
  same : root.child s = some new → root' = root

theorem inPlace_step (value : Value N) (t : JsonPathSegment) (p : List JsonPathSegment)
    (h : (root.child s).isSome = true ∨ creates root s = true) :
    (setJsonPathInPlace root (s :: t :: p) value).2 =
        (setJsonPathInPlace ((root.child s).getD (.object [])) (t :: p) value).2 ∧
      StepsInPlace root (setJsonPathInPlace root (s :: t :: p) value).1 s
        (setJsonPathInPlace ((root.child s).getD (.object [])) (t :: p) value).1 := by
  cases s with
  | key k =>
    cases root with
    | null => exact ⟨rfl, Json.getMember_insertMember_self, nofun⟩
    | object ms =>
      refine ⟨rfl, Json.getMember_insertMember_self, fun hsame => ?_⟩
      exact congrArg Value.object (insertMember_same hsame)
    | bool _ | number _ | string _ | array _ => rcases h with h | h <;> cases h
  | index i =>
    cases root with
    | array items =>
      obtain ⟨item, hitem⟩ := isSome_iff_exists.mp (h.resolve_right (by simp [creates]))
      have hget : items[i]? = some item := hitem
      obtain ⟨hi, hat⟩ := List.getElem?_eq_some_iff.mp hget
      simp only [setJsonPathInPlace, arrayAt, hget, hitem, getD_some]
      refine ⟨trivial, getElem?_set_self hi, fun hsame => ?_⟩
      rw [hitem] at hsame
      rw [← Option.some.inj hsame, ← hat, set_getElem_self]
    | null | bool _ | number _ | string _ | object _ => rcases h with h | h <;> cases h

theorem inPlace_refused {t : JsonPathSegment} (hchild : root.child s = none)
    (hcreates : creates root s = false) :
    (setJsonPathInPlace root (s :: t :: p) value).1 = root := by
  cases s with
  | key k => cases root <;> first | rfl | cases hcreates
  | index i =>
    cases root with
    | array items =>
      have hget : items[i]? = none := hchild
      simp only [setJsonPathInPlace, arrayAt, hget]
    | null | bool _ | number _ | string _ | object _ => rfl

theorem inPlace_last {e : String} (h : (setJsonPathInPlace root [s] value).2 = .error e) :
    (setJsonPathInPlace root [s] value).1 = root := by
  cases s with
  | key k => cases root <;> first | rfl | cases h
  | index i =>
    cases root with
    | array items =>
      simp only [setJsonPathInPlace, arrayAt] at h ⊢
      split at h
      · cases h
      · split at h
        · cases h
        · next hlast hset => rw [if_neg hlast, if_neg hset]
    | null | bool _ | number _ | string _ | object _ => rfl

theorem inPlace_empty_object (hp : p ≠ []) :
    (∃ e, (setJsonPathInPlace (.object []) p value).2 = .error e) ↔ p.any isIndex = true := by
  induction p with
  | nil => exact absurd rfl hp
  | cons s p ih =>
    cases s with
    | index i =>
      refine iff_of_true ?_ rfl
      cases p <;> exact ⟨_, rfl⟩
    | key k =>
      cases p with
      | nil =>
        refine iff_of_false ?_ (by simp [isIndex])
        rintro ⟨e, he⟩
        cases he
      | cons t p =>
        exact ih (by simp)

theorem inPlace_unchanged_iff (root value : Value N) (p : List JsonPathSegment) :
    ((∃ e, (setJsonPathInPlace root p value).2 = .error e) →
      (setJsonPathInPlace root p value).1 = root) ↔ createsBeforeIndex root p = false := by
  induction p generalizing root with
  | nil => exact iff_of_true (fun _ => rfl) rfl
  | cons s p ih =>
    cases p with
    | nil => exact iff_of_true (fun ⟨_, he⟩ => inPlace_last he) rfl
    | cons t p =>
      rw [createsBeforeIndex]
      cases hchild : root.child s with
      | some field =>
        have hsome : (root.child s).isSome = true := by rw [hchild]; rfl
        obtain ⟨hresult, hstep⟩ := inPlace_step value t p (.inl hsome)
        simp only [hchild, getD_some] at hresult hstep
        rw [hresult, ← ih field]
        refine forall_congr' fun _ => ⟨fun hroot => ?_, fun hfield => hstep.same ?_⟩
        · have hself := hstep.self
          rw [hroot, hchild] at hself
          exact (Option.some.inj hself).symm
        · rw [hchild, hfield]
      | none =>
        cases hcreates : creates root s with
        | false => exact iff_of_true (fun _ => inPlace_refused hchild hcreates) rfl
        | true =>
          obtain ⟨hresult, hstep⟩ := inPlace_step value t p (.inr hcreates)
          -- the value has a new child
          have hchanged : (setJsonPathInPlace root (s :: t :: p) value).1 ≠ root := by
            intro hroot
            have hself := hstep.self
            rw [hroot, hchild] at hself
            cases hself
          rw [hresult, hchild, getD_none, inPlace_empty_object (by simp), ← Bool.not_eq_true]
          exact imp_congr_right fun _ => iff_of_false hchanged not_false

/-- A failed update leaves the value as it was exactly when the path does not come to a `null` or a
missing member with an array index after it. -/
theorem failed_set_unchanged_iff (root value : Value N) (path : String) :
    (∀ segments, ((∃ e, (setJsonPathInPlace root segments value).2 = .error e) →
        (setJsonPathInPlace root segments value).1 = root) ↔
      createsBeforeIndex root segments = false) ∧
    (((∃ e, (setJsonPathInPlaceFromStr root path value).2 = .error e) →
        (setJsonPathInPlaceFromStr root path value).1 = root) ↔
      ∀ segments, parseJsonFieldPath path = .ok segments →
        createsBeforeIndex root segments = false) := by
  refine ⟨inPlace_unchanged_iff root value, ?_⟩
  rw [setJsonPathInPlaceFromStr]
  cases parseJsonFieldPath path with
  | error e => exact iff_of_true (fun _ => rfl) nofun
  | ok segments =>
    dsimp only
    rw [inPlace_unchanged_iff]
    exact ⟨fun h _ hsegments => Except.ok.inj hsegments ▸ h, fun h => h segments rfl⟩

/-- The object that holds the index is not there: the member is created as an object, and then no
array is found in it. -/
theorem failed_set_creates_member :
    setJsonPathInPlaceFromStr (.object [] : Value Unit) "a[0]" (.bool true) =
      (.object [([97], .object [])],
        .error "body field path expects an array at index 0") := rfl

end AiProxy.Rules
