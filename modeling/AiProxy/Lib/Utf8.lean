import Mathlib.Data.List.Basic

/-!
# UTF-8 texts as bytes

The bytes of a string, the string of valid bytes, and ASCII lower case on both sides: a character
outside ASCII is encoded by bytes outside ASCII, so lower-casing bytes is lower-casing characters.
-/

namespace AiProxy

abbrev Text := List Char

/-- A literal stands for its characters. -/
instance : Coe String Text := ⟨String.toList⟩

-- a constant, where `∈` would have each definition carry a proof of its own
instance : LawfulBEq Text := inferInstance

end AiProxy

namespace AiProxy.Utf8

def bytes (s : String) : List UInt8 := s.toUTF8.data.toList

def lower (b : UInt8) : UInt8 := if 65 ≤ b ∧ b ≤ 90 then b + 32 else b

theorem bytes_eq_flatMap (s : String) : bytes s = s.toList.flatMap String.utf8EncodeChar := by
  have h : s.toByteArray = s.toList.utf8Encode := by
    conv_lhs => rw [← String.ofList_toList (s := s)]
    exact String.toByteArray_ofList
  show s.toByteArray.data.toList = _
  rw [h, List.utf8Encode, List.data_toByteArray]

theorem bytes_ofList (cs : List Char) :
    bytes (String.ofList cs) = cs.flatMap String.utf8EncodeChar := by
  rw [bytes_eq_flatMap, String.toList_ofList]

theorem bytes_inj {s t : String} : bytes s = bytes t ↔ s = t := by
  refine ⟨fun h => ?_, fun h => by rw [h]⟩
  have hdata : s.toByteArray.data = t.toByteArray.data := Array.toList_inj.mp h
  exact String.toByteArray_inj.mp (ByteArray.ext hdata)

theorem bytes_of_fromUTF8? {b : List UInt8} {s : String}
    (h : String.fromUTF8? ⟨b.toArray⟩ = some s) : bytes s = b := by
  unfold String.fromUTF8? at h
  split at h
  · cases h
    rfl
  · cases h

theorem fromUTF8?_bytes (s : String) : String.fromUTF8? ⟨(bytes s).toArray⟩ = some s := by
  have hdata : (⟨(bytes s).toArray⟩ : ByteArray) = s.toByteArray := ByteArray.ext (by simp [bytes])
  rw [hdata]
  unfold String.fromUTF8?
  rw [dif_pos s.isValidUTF8]
  rfl

def encode (cs : List Char) : List UInt8 := cs.flatMap String.utf8EncodeChar

def chars (b : List UInt8) : List Char := ((String.fromUTF8? ⟨b.toArray⟩).getD "").toList

theorem encode_append (a b : List Char) : encode (a ++ b) = encode a ++ encode b :=
  List.flatMap_append

variable {c : Char}
variable {b : UInt8}

theorem encode_replicate (h : String.utf8EncodeChar c = [b]) (n : Nat) :
    encode (List.replicate n c) = List.replicate n b := by
  induction n with
  | zero => rfl
  | succ n ih =>
    rw [List.replicate_succ, encode, List.flatMap_cons, h]
    exact congrArg (b :: ·) ih

theorem chars_encode (cs : List Char) : chars (encode cs) = cs := by
  rw [chars, encode, ← bytes_ofList, fromUTF8?_bytes]
  exact String.toList_ofList

theorem toNat_lower (b : UInt8) :
    (lower b).toNat = if 65 ≤ b.toNat ∧ b.toNat ≤ 90 then b.toNat + 32 else b.toNat := by
  have hiff : (65 ≤ b ∧ b ≤ 90) ↔ (65 ≤ b.toNat ∧ b.toNat ≤ 90) := Iff.rfl
  unfold lower
  by_cases h : 65 ≤ b ∧ b ≤ 90
  · have hn := hiff.mp h
    rw [if_pos h, if_pos hn]
    show (b.toNat + 32) % 256 = b.toNat + 32
    omega
  · rw [if_neg h, if_neg (fun hn => h (hiff.mpr hn))]

theorem lower_of_ge (h : 128 ≤ b.toNat) : lower b = b := by
  apply UInt8.toNat_inj.mp
  rw [toNat_lower, if_neg (by omega)]

theorem ge_of_mem_encode (hc : 128 ≤ c.toNat) : ∀ b ∈ String.utf8EncodeChar c, 128 ≤ b.toNat := by
  have hv : ¬ c.val.toNat ≤ 127 := by
    have : c.val.toNat = c.toNat := rfl
    omega
  intro b hb
  unfold String.utf8EncodeChar at hb
  simp only [hv, if_false] at hb
  split at hb
  · simp only [List.mem_cons, List.not_mem_nil, or_false] at hb
    rcases hb with rfl | rfl <;> rw [UInt8.toNat_ofNat'] <;> omega
  · split at hb
    · simp only [List.mem_cons, List.not_mem_nil, or_false] at hb
      rcases hb with rfl | rfl | rfl <;> rw [UInt8.toNat_ofNat'] <;> omega
    · simp only [List.mem_cons, List.not_mem_nil, or_false] at hb
      rcases hb with rfl | rfl | rfl | rfl <;> rw [UInt8.toNat_ofNat'] <;> omega

theorem encode_of_ascii (hc : c.toNat < 128) : String.utf8EncodeChar c = [UInt8.ofNat c.toNat] := by
  have hv : c.val.toNat ≤ 127 := by
    have : c.val.toNat = c.toNat := rfl
    omega
  unfold String.utf8EncodeChar
  rw [if_pos hv]
  rfl

theorem toNat_lt_of_isAlphanum (h : c.isAlphanum = true) : c.toNat < 123 := by
  unfold Char.isAlphanum Char.isAlpha Char.isUpper Char.isLower Char.isDigit at h
  simp only [Bool.or_eq_true, decide_eq_true_eq, Bool.and_eq_true] at h
  rcases h with (h | h) | h
  · have : c.toNat ≤ 90 := h.2
    omega
  · have : c.toNat ≤ 122 := h.2
    omega
  · have : c.toNat ≤ 57 := h.2
    omega

theorem toNat_toLower (c : Char) :
    c.toLower.toNat = if 65 ≤ c.toNat ∧ c.toNat ≤ 90 then c.toNat + 32 else c.toNat := by
  have hiff : (c.val ≥ 'A'.val ∧ c.val ≤ 'Z'.val) ↔ (65 ≤ c.toNat ∧ c.toNat ≤ 90) := Iff.rfl
  unfold Char.toLower
  by_cases h : c.val ≥ 'A'.val ∧ c.val ≤ 'Z'.val
  · have hn := hiff.mp h
    rw [dif_pos h, if_pos hn]
    show (c.val + ('a'.val - 'A'.val)).toNat = c.toNat + 32
    show (c.toNat + 32) % 4294967296 = c.toNat + 32
    omega
  · rw [dif_neg h, if_neg (fun hn => h (hiff.mpr hn))]

theorem map_lower_encode (c : Char) :
    (String.utf8EncodeChar c).map lower = String.utf8EncodeChar c.toLower := by
  have hlow := toNat_toLower c
  by_cases hc : c.toNat < 128
  · have hc' : c.toLower.toNat < 128 := by split at hlow <;> omega
    rw [encode_of_ascii hc, encode_of_ascii hc', List.map_singleton]
    congr 1
    apply UInt8.toNat_inj.mp
    rw [toNat_lower, UInt8.toNat_ofNat', UInt8.toNat_ofNat', hlow, Nat.mod_eq_of_lt (by omega)]
    split <;> omega
  · have hsame : c.toLower = c := by
      apply Char.toNat_inj.mp
      rw [hlow, if_neg (by omega)]
    have hmap : (String.utf8EncodeChar c).map lower = (String.utf8EncodeChar c).map id :=
      List.map_congr_left fun b hb => lower_of_ge (ge_of_mem_encode (by omega) b hb)
    rw [hsame, hmap, List.map_id]

theorem map_lower_bytes (s : String) :
    (bytes s).map lower = bytes (String.ofList (s.toList.map Char.toLower)) := by
  rw [bytes_eq_flatMap, bytes_ofList, List.flatMap_map, List.map_flatMap]
  exact congrArg (fun f => s.toList.flatMap f) (funext map_lower_encode)

theorem map_lower_bytes_inj {s t : String} : (bytes s).map lower = (bytes t).map lower ↔
      s.toList.map Char.toLower = t.toList.map Char.toLower := by
  rw [map_lower_bytes, map_lower_bytes, bytes_inj, String.ofList_inj]

theorem bytes_lt_of_ascii {cs : List Char} (h : ∀ c ∈ cs, c.toNat < 128) :
    ∀ b ∈ bytes (String.ofList cs), b.toNat < 128 := by
  intro b hb
  rw [bytes_ofList] at hb
  obtain ⟨c, hc, hmem⟩ := List.mem_flatMap.mp hb
  rw [encode_of_ascii (h c hc), List.mem_singleton] at hmem
  have := h c hc
  rw [hmem, UInt8.toNat_ofNat']
  omega

theorem exists_bytes_of_ascii {b : List UInt8} (h : ∀ x ∈ b, x.toNat < 128) : ∃ s, bytes s = b := by
  refine ⟨String.ofList (b.map fun x => Char.ofNat x.toNat), ?_⟩
  rw [bytes_ofList, List.flatMap_map]
  have hone : ∀ x ∈ b, String.utf8EncodeChar (Char.ofNat x.toNat) = [x] := by
    intro x hx
    have hlt := h x hx
    have hchar : (Char.ofNat x.toNat).toNat = x.toNat := by
      have hvalid : x.toNat.isValidChar := .inl (by omega)
      rw [Char.ofNat, dif_pos hvalid]
      rfl
    rw [encode_of_ascii (by rw [hchar]; exact hlt), hchar, UInt8.ofNat_toNat]
  clear h
  induction b with
  | nil => rfl
  | cons x b ih =>
    rw [List.forall_mem_cons] at hone
    rw [List.flatMap_cons, hone.1, ih hone.2]
    rfl

theorem lt_of_lower_lt (h : (lower b).toNat < 128) : b.toNat < 128 := by
  rw [toNat_lower] at h
  split at h <;> omega

end AiProxy.Utf8
