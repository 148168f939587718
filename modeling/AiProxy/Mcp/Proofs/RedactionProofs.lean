import AiProxy.Lib.Fallible
import AiProxy.Mcp.RedactionContract

/-!
# Redaction on JSON documents

The value of a member with a secret name is replaced by the same text, with the same record, whatever it
is.
-/

namespace AiProxy.Mcp

open Json (Bytes Value toValue itemsToValue membersToValue depth itemsDepth membersDepth
  memberDepth)
open Utf8 (chars encode)
open Fallible (ok_bind exists_bind_ok)

variable {N : Type} {p : Platform N} {r : Redactor}
variable {c : Classification} {v w : Value N} {d : Nat}

def secretRedaction (c : Classification) (path : Text) : Text × List RedactionRecord :=
  (redactedValue, [⟨path, c.rule, "redact"⟩])

theorem redactScalar_secret (hc : c.sensitivity = .secret) (value path : Text) :
    redactScalar p r value path c = secretRedaction c path := by
  rw [redactScalar, hc]
  rfl

theorem redactJsonField_secret {key : Bytes} (hc : classify p r (chars key) = some c)
    (hsecret : c.sensitivity = .secret) (hv : v ≠ .null) (path : Text) :
    redactJsonField p r key v path =
      some (.string (encode (secretRedaction c path).1), (secretRedaction c path).2) := by
  rw [redactJsonField, hc, Option.map_some]
  cases v with
  | null => exact absurd rfl hv
  | bool b | number n | string s => simp only [redactScalar_secret hsecret]
  | array items | object members => rfl

theorem sensitiveSeed_secret {key : Text} (hc : classify p r key = some c)
    (hsecret : c.sensitivity = .secret) (hv : v ≠ .null) (path : Text) :
    sensitiveSeed p r key path v = secretRedaction c path := by
  have hscalar : ∀ value, redactNamedScalar p r key value path = secretRedaction c path := by
    intro value
    rw [redactNamedScalar, hc]
    exact redactScalar_secret hsecret value path
  have hcontainer : redactNamedContainer p r key path = secretRedaction c path := by
    rw [redactNamedContainer, hc]
    rfl
  cases v with
  | null => exact absurd rfl hv
  | bool b | number n | string s => exact hscalar _
  | array items | object members => exact hcontainer

theorem Secret.isSensitiveName {key : Bytes} (h : Secret p r key) :
    isSensitiveName p r (chars key) = true := by
  obtain ⟨c, hc, -⟩ := h
  rw [Mcp.isSensitiveName, hc]
  rfl

section ToValue

variable {secret : Bytes → Prop}

/-- Induction over two values that agree. -/
theorem Agree.ind {V : (v w : Value N) → Agree secret v w → Prop}
    {I : List (Value N) → List (Value N) → Prop}
    {M : List (Bytes × Value N) → List (Bytes × Value N) → Prop}
    (null : ∀ h, V .null .null h) (bool : ∀ b h, V (.bool b) (.bool b) h)
    (number : ∀ n h, V (.number n) (.number n) h) (string : ∀ s h, V (.string s) (.string s) h)
    (array : ∀ vs ws, ItemsAgree secret vs ws → I vs ws → ∀ h, V (.array vs) (.array ws) h)
    (object : ∀ ms ns, M ms ns → ∀ h, V (.object ms) (.object ns) h) (nil : I [] [])
    (cons : ∀ v w vs ws {h}, V v w h → I vs ws → I (v :: vs) (w :: ws)) (noMembers : M [] [])
    (member : ∀ k v w ms ns, (∃ h, V v w h) ∨ secret k ∧ v ≠ .null ∧ w ≠ .null → M ms ns →
      M ((k, v) :: ms) ((k, w) :: ns)) (h : Agree secret v w) : V v w h := by
  induction v using Value.ind (I := fun vs => ∀ ws, ItemsAgree secret vs ws → I vs ws)
    (M := fun ms => ∀ ns, MembersAgree secret ms ns → M ms ns) generalizing w with
  | null =>
    cases h
    exact null rfl
  | bool b =>
    cases h
    exact bool b rfl
  | number n =>
    cases h
    exact number n rfl
  | string s =>
    cases h
    exact string s rfl
  | array vs ih =>
    obtain ⟨ws, rfl, hitems⟩ := h
    exact array vs ws hitems (ih ws hitems) _
  | object ms ih =>
    obtain ⟨ns, rfl, hmembers⟩ := h
    exact object ms ns (ih ns hmembers) _
  | nil ws h =>
    cases h
    exact nil
  | cons v vs ihv ih ws h =>
    obtain ⟨w, us, rfl, hvw, hrest⟩ := h
    exact cons v w vs us (ihv hvw) (ih us hrest)
  | noMembers ns h =>
    cases h
    exact noMembers
  | member k v ms ihv ih ns h =>
    obtain ⟨_, us, rfl, ⟨w, rfl, hvw⟩, hrest⟩ := h
    exact member k v w ms us (hvw.imp_left fun hvw => ⟨hvw, ihv hvw⟩) (ih us hrest)

theorem toValue_ne_null (h : v ≠ .null) : toValue v ≠ .null := by
  cases v with
  | null => exact absurd rfl h
  | bool b | number n | string s | array items | object members => simp [toValue]

theorem MembersAgree.insertMember {m n : Bytes × Value N} (h : MemberAgree secret m n) :
    ∀ {ms ns : List (Bytes × Value N)}, MembersAgree secret ms ns →
      MembersAgree secret (Json.insertMember m.1 m.2 ms) (Json.insertMember n.1 n.2 ns) := by
  obtain ⟨k, v⟩ := m
  obtain ⟨w, rfl, hvw⟩ := h
  intro ms
  induction ms with
  | nil =>
    rintro ns rfl
    exact ⟨(k, w), [], rfl, ⟨w, rfl, hvw⟩, rfl⟩
  | cons m ms ih =>
    obtain ⟨k', v'⟩ := m
    rintro ns ⟨_, us, rfl, ⟨w', rfl, hvw'⟩, hrest⟩
    by_cases hk : k' = k
    · rw [Json.insertMember, Json.insertMember, if_pos hk, if_pos hk]
      exact ⟨(k, w), us, rfl, ⟨w, rfl, hvw⟩, hrest⟩
    · rw [Json.insertMember, Json.insertMember, if_neg hk, if_neg hk]
      exact ⟨(k', w'), _, rfl, ⟨w', rfl, hvw'⟩, ih hrest⟩

theorem MembersAgree.collect {ms ns : List (Bytes × Value N)} (h : MembersAgree secret ms ns) :
    MembersAgree secret (Json.collect ms) (Json.collect ns) := by
  -- The induction is over the members that are still to be inserted.
  have hfold : ∀ (ms ns acc acc' : List (Bytes × Value N)), MembersAgree secret ms ns →
      MembersAgree secret acc acc' →
      MembersAgree secret (ms.foldl (fun acc m => Json.insertMember m.1 m.2 acc) acc)
        (ns.foldl (fun acc m => Json.insertMember m.1 m.2 acc) acc') := by
    intro ms
    induction ms with
    | nil =>
      rintro ns acc acc' rfl hacc
      exact hacc
    | cons m ms ih =>
      rintro ns acc acc' ⟨n, us, rfl, hmn, hrest⟩ hacc
      exact ih us _ _ hrest (hacc.insertMember hmn)
  exact hfold ms ns [] [] h rfl

theorem Agree.toValue (h : Agree secret v w) : Agree secret (Json.toValue v) (Json.toValue w) := by
  induction v, w, h using Agree.ind
    (I := fun vs ws => ItemsAgree secret (itemsToValue vs) (itemsToValue ws))
    (M := fun ms ns => MembersAgree secret (membersToValue ms) (membersToValue ns)) with
  | null | bool b | number n | string s | nil | noMembers => rfl
  | array vs ws _ ih => exact ⟨_, rfl, ih⟩
  | object ms ns ih => exact ⟨_, rfl, ih.collect⟩
  | cons v w vs ws ihv ih => exact ⟨_, _, rfl, ihv, ih⟩
  | member k v w ms ns hvw ih =>
    refine ⟨_, _, rfl, ⟨_, rfl, ?_⟩, ih⟩
    rcases hvw with ⟨-, ihv⟩ | ⟨hk, hv, hw⟩
    · exact .inl ihv
    · exact .inr ⟨hk, toValue_ne_null hv, toValue_ne_null hw⟩

end ToValue

/-- What is left of a value under a sensitive name before it is redacted. -/
def emptied : Value N → Value N
  | .object _ => .object []
  | .array _ => .array []
  | v => v

theorem Agree.emptied {secret : Bytes → Prop} (h : Agree secret v w) : emptied v = emptied w := by
  cases v with
  | array vs =>
    obtain ⟨ws, rfl, -⟩ := h
    rfl
  | object ms =>
    obtain ⟨ns, rfl, -⟩ := h
    rfl
  | null | bool b | number n | string s => cases h; rfl

theorem redactJsonField_emptied (key : Bytes) (v : Value N) (path : Text) :
    redactJsonField p r key (emptied v) path = redactJsonField p r key v path := by
  cases v <;> rfl

theorem sensitiveSeed_emptied (key path : Text) (v : Value N) :
    sensitiveSeed p r key path (emptied v) = sensitiveSeed p r key path v := by
  cases v <;> rfl

theorem MemberAgree.redactJsonField {k : Bytes}
    (h : Agree (Secret p r) v w ∨ Secret p r k ∧ v ≠ .null ∧ w ≠ .null) (path : Text) :
    redactJsonField p r k v path = redactJsonField p r k w path := by
  rcases h with h | ⟨⟨c, hc, hsecret⟩, hv, hw⟩
  · rw [← redactJsonField_emptied, h.emptied, redactJsonField_emptied]
  · rw [redactJsonField_secret hc hsecret hv, redactJsonField_secret hc hsecret hw]

theorem Agree.redact (h : Agree (Secret p r) v w) : ∀ path,
    redactJsonValueInner p r v path = redactJsonValueInner p r w path := by
  induction v, w, h using Agree.ind
    (I := fun vs ws => ∀ index path, redactItems p r vs index path = redactItems p r ws index path)
    (M := fun ms ns => ∀ path, redactObject p r ms path = redactObject p r ns path) with
  | null | bool b | number n | string s => exact fun _ => rfl
  | nil | noMembers => rfl
  | array vs ws _ ih =>
    intro path
    rw [redactJsonValueInner, redactJsonValueInner, ih 0 path]
  | object ms ns ih =>
    intro path
    rw [redactJsonValueInner, redactJsonValueInner, ih path]
  | cons v w vs ws ihv ih index path => rw [redactItems, redactItems, ihv, ih]
  | member k v w ms ns hvw ih path =>
    have hfield := MemberAgree.redactJsonField (hvw.imp_left Exists.fst) (path ++ '.' :: chars k)
    rw [redactObject, redactObject, redactMember, redactMember, hfield, ih]
    rcases hvw with ⟨-, ihv⟩ | ⟨⟨c, hc, hsecret⟩, -, hw⟩
    · rw [ihv]
    · rw [redactJsonField_secret hc hsecret hw]
      rfl

theorem ensureJsonDepth_ok (h : d < maxJsonDepth) : ensureJsonDepth d = .ok () :=
  if_neg (not_le.mpr h)

theorem ignoreValue_ok (v : Value N) : ∀ {d : Nat}, d + depth v ≤ maxJsonDepth →
    ignoreValue v d = .ok () := by
  induction v using Value.ind
    (I := fun vs => ∀ {d : Nat}, d + itemsDepth vs ≤ maxJsonDepth → ignoreItems vs d = .ok ())
    (M := fun ms => ∀ {d : Nat}, d + membersDepth ms ≤ maxJsonDepth →
      ignoreMembers ms d = .ok ()) with
  | null | bool b | number n | string s => exact fun _ => rfl
  | nil | noMembers => rfl
  | array vs ih | object ms ih =>
    intro d h
    rw [depth] at h
    rw [ignoreValue, ensureJsonDepth_ok (by omega)]
    exact ih (by omega)
  | cons v vs ihv ih h =>
    rw [itemsDepth] at h
    rw [ignoreItems, ihv (by omega)]
    exact ih (by omega)
  | member k v ms ihv ih h =>
    rw [membersDepth, memberDepth] at h
    rw [ignoreMembers, ignoreMember, ihv (by omega)]
    exact ih (by omega)

theorem sensitiveValue_ok (h : d + depth v ≤ maxJsonDepth) :
    sensitiveValue d v = .ok (emptied v) := by
  cases v with
  | null | bool b | number n | string s => rfl
  | array vs | object ms =>
    have hskip := ignoreValue_ok _ h
    rw [depth] at h
    rw [ignoreValue, ensureJsonDepth_ok (by omega), ok_bind] at hskip
    rw [sensitiveValue, ensureJsonDepth_ok (by omega), ok_bind, hskip]
    rfl

theorem emptied_ne_null (h : v ≠ .null) : emptied v ≠ .null := by
  cases v with
  | null => exact absurd rfl h
  | array vs | object ms => simp [emptied]
  | _ => exact h

theorem MemberAgree.sensitiveValueSeed {k : Bytes}
    (h : Agree (Secret p r) v w ∨ Secret p r k ∧ v ≠ .null ∧ w ≠ .null)
    (hv : d + depth v ≤ maxJsonDepth) (hw : d + depth w ≤ maxJsonDepth) (path : Text)
    (st : ExtractionState N) :
    sensitiveValueSeed p r k path d v st = sensitiveValueSeed p r k path d w st := by
  rw [Mcp.sensitiveValueSeed, Mcp.sensitiveValueSeed, sensitiveValue_ok hv, sensitiveValue_ok hw]
  rcases h with h | ⟨⟨c, hc, hsecret⟩, hv, hw⟩
  · rw [h.emptied]
  · have hfv := redactJsonField_secret hc hsecret (emptied_ne_null hv) path
    have hfw := redactJsonField_secret hc hsecret (emptied_ne_null hw) path
    show Except.ok _ = Except.ok _
    rw [hfv, hfw]
    rfl

/-! ## The visitors go through -/

section Complete

variable {raw : Bool}

theorem captureSeed_ok {skip : Except Text Unit}
    {visit : Bool → Except Text (CapturedValue N × ExtractionState N)} (hskip : skip = .ok ())
    (hvisit : ∀ build, ∃ x, visit build = .ok x) (nodes : List PathNode) (path : Text)
    (collectAll : Bool) (st : ExtractionState N) :
    ∃ x, captureSeed p r raw nodes path collectAll skip visit st = .ok x := by
  rw [captureSeed, hskip]
  split
  · exact ⟨_, rfl⟩
  · obtain ⟨x, hx⟩ := hvisit (collectAll || !(collectTerminals nodes).isEmpty)
    rw [hx]
    exact ⟨_, rfl⟩

theorem sensitiveValueSeed_ok (h : d + depth v ≤ maxJsonDepth) (key : Bytes) (path : Text)
    (st : ExtractionState N) :
    ∃ x, sensitiveValueSeed p r key path d v st = .ok x := by
  rw [sensitiveValueSeed, sensitiveValue_ok h]
  exact ⟨_, rfl⟩

theorem captureValue_ok (v : Value N) : ∀ {d : Nat}, d + depth v ≤ maxJsonDepth →
    ∀ nodes path collectAll st, ∃ x, captureValue p r raw v nodes path collectAll d st = .ok x := by
  induction v using Value.ind
    (I := fun vs => ∀ {d : Nat}, d + 1 + itemsDepth vs ≤ maxJsonDepth →
      ∀ index nodes path build b st,
        ∃ x, captureItems p r raw vs index nodes path build d b st = .ok x)
    (M := fun ms => ∀ {d : Nat}, d + 1 + membersDepth ms ≤ maxJsonDepth →
      ∀ nodes path build b st, ∃ x, captureMembers p r raw ms nodes path build d b st = .ok x) with
  | null | bool b | number n | string s =>
    intro d _ nodes path collectAll st
    rw [captureValue]
    exact captureSeed_ok rfl (fun _ => ⟨_, rfl⟩) _ _ _ _
  | array vs ih | object ms ih =>
    intro d h nodes path collectAll st
    have hskip := ignoreValue_ok _ h
    rw [depth] at h
    rw [captureValue]
    refine captureSeed_ok hskip (fun build => ?_) _ _ _ _
    rw [ensureJsonDepth_ok (by omega), ok_bind]
    refine exists_bind_ok ?_ fun _ => ⟨_, rfl⟩
    apply ih
    omega
  | nil | noMembers => exact ⟨_, rfl⟩
  | @cons v vs ihv ih d h index nodes path build b st =>
    rw [itemsDepth] at h
    have htail := ih (d := d) (by omega) (index + 1) nodes path build
    rw [captureItems]
    split
    · rw [ignoreValue_ok v (by omega)]
      exact htail b st
    · exact exists_bind_ok (ihv (by omega) _ _ _ _) fun _ => htail _ _
  | @member k v ms ihv ih d h nodes path build b st =>
    rw [membersDepth, memberDepth] at h
    have hv : d + 1 + depth v ≤ maxJsonDepth := by omega
    have htail := ih (d := d) (by omega) nodes path build
    rw [captureMembers, captureMember]
    dsimp only
    split
    · rw [ignoreValue_ok v hv]
      exact htail _ _
    split
    · obtain ⟨x, hx⟩ := sensitiveValueSeed_ok hv k (appendKeyPath path k) st
      rw [hx]
      exact htail _ _
    · obtain ⟨x, hx⟩ := ihv hv (childNodesForKey nodes k) (appendKeyPath path k) _ st
      rw [hx]
      exact htail _ _

theorem ensureSearchDepth_ok (h : d < maxJsonDepth) : ensureSearchDepth d = .ok () :=
  if_neg (not_le.mpr h)

theorem redactVisit_ok (v : Value N) : ∀ {d : Nat}, d + depth v ≤ maxJsonDepth →
    ∀ path c, ∃ x, redactVisit p r v path d c = .ok x := by
  induction v using Value.ind
    (I := fun vs => ∀ {d : Nat}, d + 1 + itemsDepth vs ≤ maxJsonDepth → ∀ index path c,
      ∃ x, redactVisitItems p r vs index path d c = .ok x)
    (M := fun ms => ∀ {d : Nat}, d + 1 + membersDepth ms ≤ maxJsonDepth → ∀ first path c,
      ∃ x, redactVisitMembers p r ms first path d c = .ok x) with
  | null | bool b | number n | string s => exact fun _ _ _ => ⟨_, rfl⟩
  | nil | noMembers => exact ⟨_, rfl⟩
  | array vs ih | object ms ih =>
    intro d h path c
    rw [depth] at h
    rw [redactVisit, ensureSearchDepth_ok (by omega), ok_bind]
    refine exists_bind_ok ?_ fun _ => ⟨_, rfl⟩
    apply ih
    omega
  | @cons v vs ihv ih d h index path c =>
    rw [itemsDepth] at h
    rw [redactVisitItems]
    exact exists_bind_ok (ihv (by omega) _ _) fun x => ih (by omega) (index + 1) path x
  | @member k v ms ihv ih d h first path c =>
    rw [membersDepth, memberDepth] at h
    rw [redactVisitMembers, redactVisitMember]
    split
    · exact ih (by omega) false path _
    · exact exists_bind_ok (ihv (by omega) _ _) fun x => ih (by omega) false path x

end Complete

theorem ItemsAgree.length {secret : Bytes → Prop} : ∀ {vs ws : List (Value N)},
    ItemsAgree secret vs ws → vs.length = ws.length
  | [], _, h => by
    cases h
    rfl
  | _ :: _, _, h => by
    obtain ⟨w, us, rfl, -, hrest⟩ := h
    rw [List.length_cons, List.length_cons, hrest.length]

theorem Agree.captureValue (h : Agree (Secret p r) v w) : ∀ {d : Nat},
    d + depth v ≤ maxJsonDepth → d + depth w ≤ maxJsonDepth →
    ∀ nodes path collectAll st, captureValue p r false v nodes path collectAll d st =
      captureValue p r false w nodes path collectAll d st := by
  induction v, w, h using Agree.ind
    (I := fun vs ws => ∀ {d : Nat}, d + 1 + itemsDepth vs ≤ maxJsonDepth →
      d + 1 + itemsDepth ws ≤ maxJsonDepth →
      ∀ index nodes path build b st, captureItems p r false vs index nodes path build d b st =
        captureItems p r false ws index nodes path build d b st)
    (M := fun ms ns => ∀ {d : Nat}, d + 1 + membersDepth ms ≤ maxJsonDepth →
      d + 1 + membersDepth ns ≤ maxJsonDepth →
      ∀ nodes path build b st, captureMembers p r false ms nodes path build d b st =
        captureMembers p r false ns nodes path build d b st) with
  | null | bool b | number n | string s => exact fun _ _ _ _ _ _ => rfl
  | nil | noMembers => rfl
  | array vs ws hitems ih =>
    intro d hv hw nodes path collectAll st
    have hskip := ignoreValue_ok _ hv
    have hskip' := ignoreValue_ok _ hw
    rw [depth] at hv hw
    rw [Mcp.captureValue, Mcp.captureValue, hskip, hskip', hitems.length]
    congr 1
    funext build
    rw [ih (by omega) (by omega)]
  | object ms ns ih =>
    intro d hv hw nodes path collectAll st
    have hskip := ignoreValue_ok _ hv
    have hskip' := ignoreValue_ok _ hw
    rw [depth] at hv hw
    rw [Mcp.captureValue, Mcp.captureValue, hskip, hskip']
    congr 1
    funext build
    rw [ih (by omega) (by omega)]
  | @cons v w vs ws _ ihv ih d hv hw index nodes path build b st =>
    rw [itemsDepth] at hv hw
    have hskip : ignoreValue v (d + 1) = .ok () := ignoreValue_ok v (by omega)
    have hskip' : ignoreValue w (d + 1) = .ok () := ignoreValue_ok w (by omega)
    have hhead := ihv (d := d + 1) (by omega) (by omega)
    have htail := ih (d := d) (by omega) (by omega)
    simp only [Mcp.captureItems, hskip, hskip', hhead, htail]
  | @member k v w ms ns hvw ih d hm hn nodes path build b st =>
    rw [membersDepth, memberDepth] at hm hn
    have hv : d + 1 + depth v ≤ maxJsonDepth := by omega
    have hw : d + 1 + depth w ≤ maxJsonDepth := by omega
    have hskip := ignoreValue_ok v hv
    have hskip' := ignoreValue_ok w hw
    have hseed := MemberAgree.sensitiveValueSeed (hvw.imp_left Exists.fst) hv hw
    have htail := ih (d := d) (by omega) (by omega)
    -- Under a secret name the visitor never looks at the value.
    rcases hvw with ⟨-, ihv⟩ | ⟨hsecret, -, -⟩
    · have hchild := ihv hv hw
      simp only [Mcp.captureMembers, Mcp.captureMember, hskip, hskip', hseed, hchild, htail]
    · simp only [Mcp.captureMembers, Mcp.captureMember, hskip, hskip', hseed,
        hsecret.isSensitiveName, Bool.not_false, Bool.and_self, if_true, htail]

theorem Agree.redactVisit (h : Agree (Secret p r) v w) : ∀ path d c,
    redactVisit p r v path d c = redactVisit p r w path d c := by
  induction v, w, h using Agree.ind
    (I := fun vs ws => ∀ index path d c,
      redactVisitItems p r vs index path d c = redactVisitItems p r ws index path d c)
    (M := fun ms ns => ∀ first path d c,
      redactVisitMembers p r ms first path d c = redactVisitMembers p r ns first path d c) with
  | null | bool b | number n | string s => exact fun _ _ _ => rfl
  | nil | noMembers => rfl
  | array vs ws _ ih | object ms ns ih =>
    intro path d c
    simp only [Mcp.redactVisit, ih]
  | cons v w vs ws ihv ih => simp only [Mcp.redactVisitItems, ihv, ih]
  | member k v w ms ns hvw ih =>
    rcases hvw with ⟨hvw, ihv⟩ | ⟨⟨c', hc, hsecret⟩, hv, hw⟩
    · have hseed : ∀ key path, sensitiveSeed p r key path v = sensitiveSeed p r key path w :=
        fun key path => by rw [← sensitiveSeed_emptied, hvw.emptied, sensitiveSeed_emptied]
      simp only [Mcp.redactVisitMembers, Mcp.redactVisitMember, hseed, ihv, ih]
    · have hname : isSensitiveName p r (chars k) = true := Secret.isSensitiveName ⟨c', hc, hsecret⟩
      simp only [Mcp.redactVisitMembers, Mcp.redactVisitMember, hname, if_true,
        sensitiveSeed_secret hc hsecret hv, sensitiveSeed_secret hc hsecret hw, ih]

end AiProxy.Mcp
