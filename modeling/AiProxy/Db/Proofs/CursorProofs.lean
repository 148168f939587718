import AiProxy.Db.Cursor
import AiProxy.Lib.Decimal
import Mathlib.Data.List.TakeWhile

/-!
# Cursors survive their encoding

What is written for a cursor is read back, so a cursor of a row that a search returned is accepted
exactly if it passes the checks.
-/

namespace AiProxy.Db

open List
open Json (Token)
open Utf8 (encode)

variable {c : CursorPayload} {row : SessionSummaryRow}

theorem digit_byte {c : Char} (h : c.isDigit = true) :
    Json.isDigit c.toNat.toUInt8 = true ∧ Char.ofNat c.toNat.toUInt8.toNat = c := by
  have hrange := Decimal.range_of_isDigit h
  have hbyte : c.toNat.toUInt8.toNat = c.toNat := by
    rw [UInt8.toNat_ofNat']
    omega
  refine ⟨?_, ?_⟩
  · rw [Json.isDigit, Bool.and_eq_true, decide_eq_true_eq, decide_eq_true_eq,
      UInt8.le_iff_toNat_le, UInt8.le_iff_toNat_le, hbyte]
    exact hrange
  · rw [hbyte, Char.ofNat_toNat]

variable {n : Nat}

theorem isDigit_of_mem_printNat {b : UInt8} (h : b ∈ printNat n) : Json.isDigit b = true := by
  obtain ⟨c, hc, rfl⟩ := mem_map.mp h
  exact (digit_byte (Nat.isDigit_of_mem_toDigits (by decide) (by decide) hc)).1

theorem readNat_printNat (n : Nat) : readNat (printNat n) = n := by
  have hchars : (printNat n).map (fun b => Char.ofNat b.toNat) = Nat.toDigits 10 n := by
    rw [printNat, map_map]
    refine (map_congr_left fun c hc => ?_).trans (map_id _)
    exact (digit_byte (Nat.isDigit_of_mem_toDigits (by decide) (by decide) hc)).2
  rw [readNat, hchars, Nat.ofDigitChars_ten_toDigits]

theorem head_toDigits (h : 0 < n) : (Nat.toDigits 10 n).head? ≠ some '0' := by
  induction n using Nat.strongRecOn with
  | ind n ih =>
    by_cases hsmall : n < 10
    · rw [Nat.toDigits_of_lt_base hsmall]
      interval_cases n <;> decide
    · rw [Nat.toDigits_of_base_le (by decide) (le_of_not_gt hsmall),
        head?_append_of_ne_nil _ Nat.toDigits_ne_nil]
      exact ih (n / 10) (by omega) (by omega)

theorem no_leading_zero (n : Nat) :
    ((printNat n).head? == some 0x30 && decide (1 < (printNat n).length)) = false := by
  rcases Nat.eq_zero_or_pos n with rfl | hpos
  · decide
  · rw [Bool.and_eq_false_iff]
    refine .inl (beq_eq_false_iff_ne.mpr fun hhead => head_toDigits hpos ?_)
    rw [printNat, head?_map, Option.map_eq_some_iff] at hhead
    obtain ⟨c, hc, hbyte⟩ := hhead
    have hdigit := digit_byte (Nat.isDigit_of_mem_toDigits (b := 10) (by decide) (by decide)
      (mem_of_mem_head? hc))
    rw [hbyte] at hdigit
    rw [hc, ← hdigit.2]
    rfl

theorem numberOf_printNat (n : Nat) : numberOf (printNat n) = some (integerOf false n) := by
  have hne : printNat n ≠ [] := by simp [printNat]
  have hall : ∀ b ∈ printNat n, Json.isDigit b = true := fun b => isDigit_of_mem_printNat
  have hsign : ((printNat n).head? == some 0x2d) = false := by
    rw [beq_eq_false_iff_ne]
    intro hhead
    have := hall _ (mem_of_mem_head? hhead)
    revert this
    decide
  have htake : (printNat n).takeWhile Json.isDigit = printNat n := takeWhile_eq_self_iff.mpr hall
  have hdrop : (printNat n).dropWhile Json.isDigit = [] := dropWhile_eq_nil_iff.mpr hall
  simp only [numberOf, hsign, Bool.false_eq_true, if_false, htake, hdrop, no_leading_zero,
    isEmpty_eq_false_iff.mpr hne, Bool.or_self, isEmpty_nil, if_true, readNat_printNat]

theorem token_printNat (h : n < 2 ^ 64) : Token numberOf (printNat n) (.number (some n)) := by
  have hvalue := numberOf_printNat n
  rw [integerOf, if_pos h] at hvalue
  have hdigit : ∀ b ∈ printNat n, Json.isDigit b = true := fun b => isDigit_of_mem_printNat
  cases hprint : printNat n with
  | nil => simp [printNat] at hprint
  | cons b tok =>
    rw [hprint] at hvalue hdigit
    obtain ⟨hb, htok⟩ := forall_mem_cons.mp hdigit
    refine .number ?_ (fun c hc => ?_) hvalue
    · rw [Json.isNumberStart, hb, Bool.or_true]
    · simp only [Json.isNumberChar, htok c hc, Bool.true_or]

/-- The sort key of a row that a search returned. -/
structure CursorPayload.Fits (c : CursorPayload) : Prop where
  version : c.version < 2 ^ 32
  sortValue : ∀ v ∈ c.sortValue, 0 ≤ v ∧ v ≤ i64Max

theorem asText_encode (t : Text) : asText (.string (encode t)) = some t := by
  rw [asText, encode, ← Utf8.bytes_ofList, Utf8.fromUTF8?_bytes, Option.map_some,
    String.toList_ofList]

theorem CursorPayload.Fits.tokens (h : c.Fits) : ∀ m ∈ c.members, Token numberOf m.2.1 m.2.2 := by
  have hversion := h.version
  simp only [CursorPayload.members, forall_mem_cons]
  refine ⟨token_printNat (by omega), Json.token_printString _ _, Json.token_printString _ _,
    Json.token_printString _ _, Json.token_printString _ _, ?_, forall_mem_nil _⟩
  cases hvalue : c.sortValue with
  | none => exact .null
  | some v =>
    obtain ⟨hnonneg, hle⟩ := h.sortValue v hvalue
    obtain ⟨n, rfl⟩ := Int.eq_ofNat_of_zero_le hnonneg
    rw [i64Max] at hle
    exact token_printNat (by omega)

theorem CursorPayload.Fits.asOptionI64 (h : c.Fits) :
    Db.asOptionI64 (optionMember c.sortValue).2 = some c.sortValue := by
  cases hvalue : c.sortValue with
  | none => rfl
  | some v =>
    rw [optionMember, Db.asOptionI64, if_pos (h.sortValue v hvalue).2]

theorem CursorPayload.Fits.fromSlice (h : c.Fits) : CursorPayload.fromSlice c.toVec = some c := by
  have hread := Json.document_printObject _ _ h.tokens
  have hversion : asU32 (.number (some (c.version : Int))) = some c.version := if_pos h.version
  have hdocument : Json.document numberOf c.toVec =
      some (.object (c.members.map fun m => (m.1, m.2.2))) := hread
  rw [CursorPayload.fromSlice, hdocument]
  have h1 : required asU32 "version" (c.members.map fun m => (m.1, m.2.2)) = some c.version :=
    hversion
  have h2 : required asText "sortBy" (c.members.map fun m => (m.1, m.2.2)) = some c.sortBy :=
    asText_encode c.sortBy
  have h3 : required asText "sortOrder" (c.members.map fun m => (m.1, m.2.2)) = some c.sortOrder :=
    asText_encode c.sortOrder
  have h4 : required asText "startedAt" (c.members.map fun m => (m.1, m.2.2)) = some c.startedAt :=
    asText_encode c.startedAt
  have h5 : required asText "id" (c.members.map fun m => (m.1, m.2.2)) = some c.id :=
    asText_encode c.id
  have h6 : member "sortValue" (c.members.map fun m => (m.1, m.2.2)) =
      some (some (optionMember c.sortValue).2) := rfl
  simp only [h1, h2, h3, h4, h5, h6, Option.bind_eq_bind, Option.bind_some, Option.getD_some,
    h.asOptionI64]

theorem SessionSortField.asStr_mem (field : SessionSortField) : field.asStr ∈
    ["startedAt".toList, "durationMs".toList, "sizeBytes".toList, "statusCode".toList] := by
  cases field <;> decide

theorem SortOrder.asStr_mem (order : SortOrder) : order.asStr ∈ ["asc".toList, "desc".toList] := by
  cases order <;> decide

/-- A row that a cursor can name: what `decode_cursor` checks of its sort key. -/
structure SessionSummaryRow.Nameable (row : SessionSummaryRow) : Prop where
  startedAt : isBlank row.startedAt = false
  id : isBlank row.id = false
  idLength : (encode row.id).length ≤ 256
  statusCode : row.statusCode ≤ 65535

theorem fits_cursorOf (hstatus : row.statusCode ≤ 65535) (sortBy : SessionSortField)
    (sortOrder : SortOrder) : (cursorOf row sortBy sortOrder).Fits := by
  have hversion : sessionSearchSchemaVersion < 2 ^ 32 := by decide
  refine ⟨hversion, fun v hv => ?_⟩
  cases sortBy with
  | startedAt => cases hv
  | durationMs | sizeBytes =>
    cases hv
    exact ⟨by rw [i64Max]; omega, min_le_right _ _⟩
  | statusCode =>
    cases hv
    rw [i64Max]
    omega

theorem read_encodeCursor (h : row.statusCode ≤ 65535) (sortBy : SessionSortField)
    (sortOrder : SortOrder) :
    (Base64Url.decode (encodeCursor row sortBy sortOrder)).bind CursorPayload.fromSlice =
      some (cursorOf row sortBy sortOrder) := by
  rw [encodeCursor, Base64Url.decode_encode, Option.bind_some, (fits_cursorOf h _ _).fromSlice]

theorem SessionSummaryRow.Nameable.decodeCursor (h : row.Nameable) (sortBy : SessionSortField)
    (sortOrder : SortOrder) (hlength : (encode (encodeCursor row sortBy sortOrder)).length ≤ 1024) :
    Db.decodeCursor (encodeCursor row sortBy sortOrder) = .ok (cursorOf row sortBy sortOrder) := by
  have hshort : ¬ 1024 < (encode (encodeCursor row sortBy sortOrder)).length := not_lt.mpr hlength
  rw [Db.decodeCursor, if_neg hshort, read_encodeCursor h.statusCode]
  refine if_neg ?_
  rintro (hversion | hblank | hblank | hlong | hfield | hdirection | ⟨hfield, hvalue⟩ |
    ⟨hfield, hvalue⟩)
  · exact hversion rfl
  · exact Bool.false_ne_true (h.startedAt.symm.trans hblank)
  · exact Bool.false_ne_true (h.id.symm.trans hblank)
  · exact absurd h.idLength (not_le.mpr hlong)
  · exact hfield (SessionSortField.asStr_mem sortBy)
  · exact hdirection (SortOrder.asStr_mem sortOrder)
  · have hother : ∀ field ∈ [SessionSortField.durationMs, .sizeBytes, .statusCode],
        field.asStr ≠ "startedAt" := by decide
    cases sortBy with
    | startedAt => cases hvalue
    | durationMs => exact absurd hfield (hother .durationMs (by simp))
    | sizeBytes => exact absurd hfield (hother .sizeBytes (by simp))
    | statusCode => exact absurd hfield (hother .statusCode (by simp))
  · cases sortBy with
    | startedAt => exact hfield rfl
    | durationMs | sizeBytes | statusCode => cases hvalue

theorem decodeCursor_blank (hblank : isBlank row.id = true) (hstatus : row.statusCode ≤ 65535)
    (sortBy : SessionSortField) (sortOrder : SortOrder) :
    Db.decodeCursor (encodeCursor row sortBy sortOrder) = .error invalidCursor := by
  rw [Db.decodeCursor, read_encodeCursor hstatus]
  split
  · rfl
  · exact if_pos (.inr (.inr (.inl hblank)))

end AiProxy.Db
