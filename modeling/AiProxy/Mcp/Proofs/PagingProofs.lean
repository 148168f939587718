import AiProxy.Lib.Fallible
import AiProxy.Mcp.Body
import AiProxy.Mcp.Proofs.ByteOffsetProofs

/-!
# The pages of a text cover it

A page read at a character boundary ends at one, and no page is empty before the end of the text.
-/

namespace AiProxy.Mcp

open List

variable {N : Type}

theorem lowerEnd_append (a t : Text) (n : Nat) :
    lowerEnd (a ++ t) (byteLen a) (byteLen a + n) = byteLen a + floorFrom t n := by
  induction n with
  | zero =>
    rw [floorFrom]
    cases h : byteLen a with
    | zero => rfl
    | succ k => rw [lowerEnd, if_neg (by simp)]
  | succ n ih =>
    have hboundary := isCharBoundary_append_left a t (n + 1)
    rw [← add_assoc] at hboundary ⊢
    rw [lowerEnd, floorFrom, hboundary, ih, decide_eq_true (by omega)]
    cases isCharBoundary t (n + 1) <;> rfl

theorem secondCharFrom_append (a : Text) (c : Char) (t : Text) :
    secondCharFrom (a ++ c :: t) (byteLen a) = byteLen a + byteLen [c] := by
  rw [secondCharFrom, dropBytes_byteLen]
  cases t with
  | nil => exact byteLen_append a [c]
  | cons d t => rfl

/-- Not empty, and within the size unless it is a single character. -/
def PageFits (page : Text) (size : Nat) : Prop :=
  page ≠ [] ∧ (byteLen page ≤ size ∨ page.length = 1)

theorem pageEnd_append (a t : Text) {size : Nat} (hsize : 0 < size)
    (h : byteLen (a ++ t) < 2 ^ 63) :
    ∃ page rest, t = page ++ rest ∧ (t ≠ [] → PageFits page size) ∧
      pageEnd (a ++ t) (byteLen a) size = byteLen a + byteLen page := by
  have hlen := byteLen_append a t
  have hstop : min (saturatingAdd (byteLen a) size) (byteLen (a ++ t)) =
      byteLen a + min size (byteLen t) := by
    rw [saturatingAdd]
    omega
  obtain ⟨page, rest, ht, hpage⟩ :=
    isCharBoundary_iff.mp (isCharBoundary_floorFrom t (min size (byteLen t)))
  have hfloor := floorFrom_le t (min size (byteLen t))
  rw [pageEnd, hstop, lowerEnd_append, ← hpage]
  rw [← hpage] at hfloor
  cases page with
  | cons c page =>
    have hpos := length_le_byteLen (c :: page)
    rw [length_cons] at hpos
    exact ⟨c :: page, rest, ht, fun _ => ⟨cons_ne_nil c page, .inl (by omega)⟩, if_neg (by omega)⟩
  | nil =>
    cases t with
    | nil => exact ⟨[], [], rfl, fun hne => absurd rfl hne, if_neg (by rw [hlen]; simp)⟩
    | cons c t =>
      have hpos := byteLen_singleton_pos c
      have hcons := byteLen_cons c t
      refine ⟨[c], t, rfl, fun _ => ⟨cons_ne_nil c [], .inr rfl⟩, ?_⟩
      rw [if_pos ⟨rfl, by omega, hsize⟩, secondCharFrom_append]

theorem sliceTextPage_append (a t : Text) {size : Nat} (hsize : 0 < size)
    (h : byteLen (a ++ t) < 2 ^ 63) :
    ∃ page rest, t = page ++ rest ∧ (t ≠ [] → PageFits page size) ∧
      ∃ read, sliceTextPage (N := N) (a ++ t) (byteLen a) size = .ok read ∧ read.text = page ∧
        read.nextOffset = if rest = [] then none else some (byteLen (a ++ page)) := by
  obtain ⟨page, rest, rfl, hfits, hstop⟩ := pageEnd_append a t hsize h
  have hboundary : isCharBoundary (a ++ (page ++ rest)) (byteLen a) = true :=
    isCharBoundary_iff.mpr ⟨a, page ++ rest, rfl, rfl⟩
  rw [sliceTextPage, if_neg (by rw [byteLen_append]; omega), hboundary, Bool.not_true]
  refine ⟨page, rest, rfl, hfits, _, rfl, ?_, ?_⟩
  · dsimp only
    rw [hstop, ← append_assoc, sliceBytes_eq]
  · have hlen : byteLen (a ++ (page ++ rest)) = byteLen a + byteLen page + byteLen rest := by
      rw [← append_assoc, byteLen_append, byteLen_append]
    rw [hstop, hlen, ← byteLen_append]
    cases rest with
    | nil => simp
    | cons c rest =>
      have hpos := length_le_byteLen (c :: rest)
      rw [length_cons] at hpos
      rw [if_neg (cons_ne_nil c rest), decide_eq_true (by omega), if_pos rfl]

/-- The pages of a text, one for each size as long as there is more to read. -/
structure PagesCover (text : Text) (sizes : List Nat) (pages : List TextPage) (unread : Option Nat) :
    Prop where
  fits : text ≠ [] → ∀ read ∈ pages.zip sizes, PageFits read.1.text read.2
  ends : text.length < sizes.length → unread = none
  whole : unread = none → (pages.map (·.text)).flatten = text

theorem followPages_append (sizes : List Nat) (a t : Text) (hpos : ∀ size ∈ sizes, 0 < size)
    (h : byteLen (a ++ t) < 2 ^ 63) :
    ∃ pages unread, followPages (N := N) (a ++ t) sizes (byteLen a) = .ok (pages, unread) ∧
      PagesCover t sizes pages unread := by
  induction sizes generalizing a t with
  | nil => exact ⟨[], some (byteLen a), rfl, by simp, by simp, by simp⟩
  | cons size sizes ih =>
    obtain ⟨_, rest, rfl, hfits, page, hpage, rfl, hnext⟩ :=
      sliceTextPage_append (N := N) a t (hpos size mem_cons_self) h
    rw [followPages, hpage, Fallible.ok_bind, hnext]
    by_cases hrest : rest = []
    · subst hrest
      exact ⟨[page], none, rfl, by simpa using hfits, fun _ => rfl, fun _ => by simp⟩
    · have hne : page.text ++ rest ≠ [] := by simp [hrest]
      rw [← append_assoc] at h ⊢
      obtain ⟨pages, unread, hok, hcovers⟩ :=
        ih (a ++ page.text) rest (fun size hmem => hpos size (mem_cons_of_mem _ hmem)) h
      refine ⟨page :: pages, unread, ?_, ?_, ?_, ?_⟩
      · rw [if_neg hrest]
        dsimp only
        rw [hok]
        rfl
      · intro _ read hread
        rw [zip_cons_cons, mem_cons] at hread
        rcases hread with rfl | hread
        · exact hfits hne
        · exact hcovers.fits hrest read hread
      · intro hlen
        have := length_pos_iff.mpr (hfits hne).1
        rw [length_append, length_cons] at hlen
        exact hcovers.ends (by omega)
      · intro hunread
        rw [map_cons, flatten_cons, hcovers.whole hunread]

/-- Read in pages of any positive sizes, a text is read to its end without an error and without
loss. -/
theorem pages_cover_text (text : Text) (htext : byteLen text < 2 ^ 63) (sizes : List Nat)
    (hpos : ∀ size ∈ sizes, 0 < size) :
    ∃ pages unread, followPages (N := N) text sizes 0 = .ok (pages, unread) ∧
      PagesCover text sizes pages unread :=
  followPages_append sizes [] text hpos htext

theorem pages_cover_text_umlauts :
    ∃ pages unread, followPages (N := Nat) "aäß" [1, 1, 1, 1] 0 = .ok (pages, unread) ∧
      PagesCover "aäß" [1, 1, 1, 1] pages unread :=
  pages_cover_text "aäß" (by decide) [1, 1, 1, 1] (by decide)

end AiProxy.Mcp
